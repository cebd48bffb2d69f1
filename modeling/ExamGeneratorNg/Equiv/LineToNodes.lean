import ExamGeneratorNg.ExamTemplateRealization
import Mathlib.Data.List.Chain

/-!
# Correctness of `lineToNodes`

The node list of a line is canonical: texts and spaces in turn, starting with a text; no text has
two spaces side by side; a `text:s` only continues the space its text ends in.  `Encodes` is that
invariant together with the string the nodes spell, `encodes_step` its step along
`combineNodesWithChar` and `lineToNodes_spec` the run over a line.
-/

namespace ExamGeneratorNg

/-! ### The invariant -/

/-- No two spaces stand side by side. -/
def NoDoubleSpace (s : JString) : Prop :=
  s.IsChain fun a b => ¬(a = chr ' ' ∧ b = chr ' ')

/-- What a node list ends in. -/
inductive LastNode
  | start
  | text
  | space

/-- The canonical node lists, by the node they end in, each with the string it spells. -/
inductive Encodes : LastNode → List Node → JString → Prop
  | nil : Encodes .start [] []
  | firstText (data : JString) (hne : data ≠ []) (hdouble : NoDoubleSpace data) :
    Encodes .text [Node.text data] data
  | space {nodes : List Node} {s : JString} (h : Encodes .text nodes s)
    (hlast : s.getLast? = some (chr ' ')) (c : ℕ) (hc : 1 ≤ c) :
    Encodes .space (nodes ++ [Node.space c]) (s ++ List.replicate c (chr ' '))
  | laterText {nodes : List Node} {s : JString} (h : Encodes .space nodes s) (data : JString)
    (hne : data ≠ []) (hdouble : NoDoubleSpace data) (hhead : data.head? ≠ some (chr ' ')) :
    Encodes .text (nodes ++ [Node.text data]) (s ++ data)

theorem noDoubleSpace_singleton (c : JChar) : NoDoubleSpace [c] := List.isChain_singleton c

theorem NoDoubleSpace.concat {s : JString} (h : NoDoubleSpace s) {c : JChar}
    (hc : ∀ a ∈ s.getLast?, ¬(a = chr ' ' ∧ c = chr ' ')) : NoDoubleSpace (s ++ [c]) := by
  unfold NoDoubleSpace
  rw [List.isChain_append]
  refine ⟨h, List.isChain_singleton c, fun a ha b hb => ?_⟩
  obtain rfl : c = b := by simpa using hb
  exact hc a ha

/-! ### One character -/

@[simp] theorem combineNodesWithChar_nil (c : JChar) :
    combineNodesWithChar [] c = .ok [Node.text [c]] := by
  unfold combineNodesWithChar
  cases decide (c = chr ' ') <;> rfl

theorem combineNodesWithChar_space {nodes : List Node} {n : ℕ} (c : JChar) :
    combineNodesWithChar (nodes ++ [Node.space n]) c
      = .ok (if c = chr ' ' then nodes ++ [Node.space (n + 1)]
          else nodes ++ [Node.space n] ++ [Node.text [c]]) := by
  unfold combineNodesWithChar
  rw [List.getLast?_concat, List.dropLast_concat]
  by_cases hc : c = chr ' '
  · rw [if_pos hc, decide_eq_true hc]
    rfl
  · rw [if_neg hc, decide_eq_false hc]
    rfl

theorem combineNodesWithChar_text {nodes : List Node} (s : JString) (a c : JChar) :
    combineNodesWithChar (nodes ++ [Node.text (s ++ [a])]) c
      = .ok (if c = chr ' ' ∧ a = chr ' ' then nodes ++ [Node.text (s ++ [a])] ++ [Node.space 1]
          else nodes ++ [Node.text (s ++ [a] ++ [c])]) := by
  unfold combineNodesWithChar
  rw [List.getLast?_concat, List.dropLast_concat]
  by_cases hc : c = chr ' '
  · rw [decide_eq_true hc]
    show (listGet (s ++ [a]) (((s ++ [a]).length : ℤ) - 1) >>= _) = _
    rw [listGet_last]
    show (if a = chr ' ' then _ else _) = _
    by_cases ha : a = chr ' '
    · rw [if_pos ha, if_pos ⟨hc, ha⟩]
      rfl
    · rw [if_neg ha, if_neg fun h => ha h.2]
      rfl
  · rw [if_neg fun h => hc h.1, decide_eq_false hc]
    rfl

/-- Every canonical list that ends in a text, and the text. -/
theorem Encodes.exists_text {nodes : List Node} {s : JString} (h : Encodes .text nodes s) :
    ∃ before data lead, nodes = before ++ [Node.text data] ∧ s = lead ++ data ∧ data ≠ [] ∧
      NoDoubleSpace data ∧ ∀ data', data' ≠ [] → data'.head? = data.head? → NoDoubleSpace data' →
        Encodes .text (before ++ [Node.text data']) (lead ++ data') := by
  cases h with
  | firstText _ hne hdouble =>
    exact ⟨[], s, [], rfl, rfl, hne, hdouble, fun data' hne' _ h' => .firstText data' hne' h'⟩
  | laterText h data hne hdouble hhead =>
    refine ⟨_, data, _, rfl, rfl, hne, hdouble, fun data' hne' hhead' hdouble' => ?_⟩
    exact .laterText h data' hne' hdouble' (by rw [hhead']; exact hhead)

/-- **One character more** keeps the node list canonical, and never throws. -/
theorem encodes_step {last : LastNode} {nodes : List Node} {s : JString}
    (h : Encodes last nodes s) (c : JChar) :
    ∃ last' nodes',
      combineNodesWithChar nodes c = .ok nodes' ∧ Encodes last' nodes' (s ++ [c]) := by
  cases last with
  | start =>
    cases h
    exact ⟨.text, _, combineNodesWithChar_nil c,
      .firstText [c] (by simp) (noDoubleSpace_singleton c)⟩
  | text =>
    obtain ⟨before, data, lead, rfl, rfl, hne, hdouble, hreplace⟩ := h.exists_text
    obtain ⟨data, a, rfl⟩ := List.eq_nil_or_concat data |>.resolve_left hne
    rw [List.concat_eq_append] at *
    by_cases hspace : c = chr ' ' ∧ a = chr ' '
    · -- a second space opens a `text:s`
      refine ⟨.space, _, by rw [combineNodesWithChar_text, if_pos hspace], ?_⟩
      have hlast : (lead ++ (data ++ [a])).getLast? = some (chr ' ') := by
        rw [← List.append_assoc, List.getLast?_concat, hspace.2]
      rw [hspace.1]
      exact .space h hlast 1 (by omega)
    · -- any other character goes to the end of the text
      refine ⟨.text, _, by rw [combineNodesWithChar_text, if_neg hspace], ?_⟩
      rw [List.append_assoc lead]
      apply hreplace
      · simp
      · cases data <;> rfl
      · apply hdouble.concat
        rintro b hb ⟨rfl, hc⟩
        rw [List.getLast?_concat, Option.mem_some_iff] at hb
        exact hspace ⟨hc, hb⟩
  | space =>
    cases h with
    | space h hlast n hn =>
      by_cases hc : c = chr ' '
      · refine ⟨.space, _, by rw [combineNodesWithChar_space, if_pos hc], ?_⟩
        rw [hc, List.append_assoc, ← List.replicate_succ']
        exact .space h hlast (n + 1) (by omega)
      · refine ⟨.text, _, by rw [combineNodesWithChar_space, if_neg hc], ?_⟩
        exact .laterText (.space h hlast n hn) [c] (by simp) (noDoubleSpace_singleton c)
          (by simpa using hc)

/-! ### Canonical node lists -/

/-- What the node list of a line looks like. -/
structure Canonical (nodes : List Node) : Prop where
  /-- Texts and `text:s` stand in turn, and the first node is a text. -/
  alternates : ∀ i node, nodes[i]? = some node →
    if i % 2 = 0 then ∃ data, node = Node.text data else ∃ c, node = Node.space c
  /-- No text is empty, or has two spaces side by side. -/
  texts : ∀ data, Node.text data ∈ nodes → data ≠ [] ∧ ¬ [chr ' ', chr ' '] <:+: data
  /-- A `text:s` is one space or more, behind a text that ends in a space; if there is a node
  behind it, that is a text that does not start with a space. -/
  spaces : ∀ before c after, nodes = before ++ Node.space c :: after → 1 ≤ c ∧
    (∃ data, before.getLast? = some (Node.text data) ∧ data.getLast? = some (chr ' ')) ∧
    ∀ node ∈ after.head?, ∃ data, node = Node.text data ∧ data.head? ≠ some (chr ' ')

theorem text_ne_space {data : JString} {c : ℕ} : Node.text data ≠ Node.space c := nofun

theorem NoDoubleSpace.not_infix {s : JString} (h : NoDoubleSpace s) :
    ¬ [chr ' ', chr ' '] <:+: s := by
  intro hinfix
  have hpair : NoDoubleSpace [chr ' ', chr ' '] := List.IsChain.infix h hinfix
  exact List.isChain_pair.mp hpair ⟨rfl, rfl⟩

theorem canonical_nil : Canonical [] where
  alternates := nofun
  texts := nofun
  spaces := by simp

section

variable {nodes : List Node} (h : Canonical nodes)

include h

theorem Canonical.alternates_concat {node : Node}
    (hnode : if nodes.length % 2 = 0 then ∃ data, node = Node.text data
      else ∃ c, node = Node.space c) (i : ℕ) (node' : Node)
    (hi : (nodes ++ [node])[i]? = some node') :
    if i % 2 = 0 then ∃ data, node' = Node.text data else ∃ c, node' = Node.space c := by
  rcases Nat.lt_trichotomy i nodes.length with hlt | rfl | hgt
  · rw [List.getElem?_append_left hlt] at hi
    exact h.alternates i node' hi
  · rw [List.getElem?_concat_length] at hi
    exact Option.some.inj hi ▸ hnode
  · rw [List.getElem?_eq_none (by simp; omega)] at hi
    cases hi

/-- A text may stand at the start, and behind a `text:s` unless it starts with a space. -/
theorem Canonical.concat_text (hlength : nodes.length % 2 = 0) {data : JString}
    (hne : data ≠ []) (hdouble : NoDoubleSpace data)
    (hhead : nodes ≠ [] → data.head? ≠ some (chr ' ')) :
    Canonical (nodes ++ [Node.text data]) where
  alternates := h.alternates_concat (by rw [if_pos hlength]; exact ⟨data, rfl⟩)
  texts data' hmem := by
    rcases List.mem_append.mp hmem with hold | hnew
    · exact h.texts data' hold
    · cases List.mem_singleton.mp hnew
      exact ⟨hne, hdouble.not_infix⟩
  spaces before c after heq := by
    rcases List.eq_nil_or_concat after with rfl | ⟨after, node, rfl⟩
    · exact absurd (List.append_inj' heq rfl).2 (by simpa using text_ne_space)
    · rw [List.concat_eq_append, ← List.cons_append, ← List.append_assoc] at heq
      obtain ⟨hnodes, hnode⟩ := List.append_inj' heq rfl
      obtain ⟨hc, hbefore, hafter⟩ := h.spaces before c after hnodes
      refine ⟨hc, hbefore, fun node' hnode' => ?_⟩
      cases after with
      | cons node after => exact hafter node' hnode'
      | nil =>
        -- the text is the node behind the `text:s`
        cases hnode'
        exact ⟨data, (List.singleton_inj.mp hnode).symm, hhead (by simp [hnodes])⟩

/-- A `text:s` may stand behind a text that ends in a space. -/
theorem Canonical.concat_space (hlength : nodes.length % 2 = 1) {data : JString}
    (hlast : nodes.getLast? = some (Node.text data)) (hspace : data.getLast? = some (chr ' '))
    {c : ℕ} (hc : 1 ≤ c) : Canonical (nodes ++ [Node.space c]) where
  alternates := h.alternates_concat (by rw [if_neg (by omega)]; exact ⟨c, rfl⟩)
  texts data' hmem := by
    rcases List.mem_append.mp hmem with hold | hnew
    · exact h.texts data' hold
    · exact absurd (List.mem_singleton.mp hnew) text_ne_space
  spaces before c' after heq := by
    rcases List.eq_nil_or_concat after with rfl | ⟨after, node, rfl⟩
    · obtain ⟨rfl, hnode⟩ := List.append_inj' heq rfl
      cases List.singleton_inj.mp hnode
      exact ⟨hc, ⟨data, hlast, hspace⟩, nofun⟩
    · rw [List.concat_eq_append, ← List.cons_append, ← List.append_assoc] at heq
      obtain ⟨hnodes, -⟩ := List.append_inj' heq rfl
      obtain ⟨hc', hbefore, hafter⟩ := h.spaces before c' after hnodes
      refine ⟨hc', hbefore, fun node' hnode' => ?_⟩
      cases after with
      | cons node after => exact hafter node' hnode'
      | nil =>
        -- the last node in front is a text, and no other `text:s`
        rw [hnodes, List.getLast?_concat] at hlast
        exact absurd (Option.some.inj hlast).symm text_ne_space

end

/-- The node a canonical list ends in, by its length. -/
def LastNode.lengthModTwo : LastNode → ℕ
  | start => 0
  | text => 1
  | space => 0

theorem Encodes.length_mod_two {last : LastNode} {nodes : List Node} {s : JString}
    (h : Encodes last nodes s) : nodes.length % 2 = last.lengthModTwo := by
  induction h with
  | nil => rfl
  | firstText => rfl
  | space h _ _ _ ih =>
    rw [List.length_append, List.length_singleton]
    simp only [LastNode.lengthModTwo] at ih ⊢
    omega
  | laterText h _ _ _ _ ih =>
    rw [List.length_append, List.length_singleton]
    simp only [LastNode.lengthModTwo] at ih ⊢
    omega

/-- The last text ends as the string does. -/
theorem Encodes.getLast?_text {nodes : List Node} {s : JString} (h : Encodes .text nodes s) :
    ∃ data, nodes.getLast? = some (Node.text data) ∧ data.getLast? = s.getLast? := by
  obtain ⟨before, data, lead, rfl, rfl, hne, -, -⟩ := h.exists_text
  exact ⟨data, List.getLast?_concat, (List.getLast?_append_of_ne_nil lead hne).symm⟩

/-- **The node lists that encode a string are canonical.** -/
theorem Encodes.canonical {last : LastNode} {nodes : List Node} {s : JString}
    (h : Encodes last nodes s) : Canonical nodes := by
  induction h with
  | nil => exact canonical_nil
  | firstText data hne hdouble => exact canonical_nil.concat_text rfl hne hdouble (absurd rfl)
  | space h hlast c hc ih =>
    obtain ⟨data, hdata, hend⟩ := h.getLast?_text
    exact ih.concat_space h.length_mod_two hdata (hend.trans hlast) hc
  | laterText h data hne hdouble hhead ih =>
    exact ih.concat_text h.length_mod_two hne hdouble fun _ => hhead

/-! ### A whole line -/

theorem foldlM_combineNodesWithChar {last : LastNode} {nodes : List Node} {s : JString}
    (h : Encodes last nodes s) (line : JString) :
    ∃ last' nodes', line.foldlM combineNodesWithChar nodes = .ok nodes' ∧
      Encodes last' nodes' (s ++ line) := by
  induction line generalizing last nodes s with
  | nil => exact ⟨last, nodes, rfl, by rwa [List.append_nil]⟩
  | cons c line ih =>
    obtain ⟨last₁, nodes₁, hstep, h₁⟩ := encodes_step h c
    obtain ⟨last₂, nodes₂, hrun, h₂⟩ := ih h₁
    refine ⟨last₂, nodes₂, ?_, by simpa using h₂⟩
    rw [List.foldlM_cons, hstep]
    exact hrun

/-- **`lineToNodes` never throws, and its result is canonical and spells the line.** -/
theorem lineToNodes_spec (line : JString) :
    ∃ last nodes, lineToNodes line = .ok nodes ∧ Encodes last nodes line :=
  foldlM_combineNodesWithChar .nil line

theorem mapM_lineToNodes (lines : List JString) :
    ∃ nodesMatrix, lines.mapM lineToNodes = .ok nodesMatrix ∧
      List.Forall₂ (fun nodes line => ∃ last, Encodes last nodes line) nodesMatrix lines := by
  induction lines with
  | nil => exact ⟨[], rfl, .nil⟩
  | cons line lines ih =>
    obtain ⟨last, nodes, hnodes, h⟩ := lineToNodes_spec line
    obtain ⟨nodesMatrix, hmatrix, hs⟩ := ih
    refine ⟨nodes :: nodesMatrix, ?_, .cons ⟨last, h⟩ hs⟩
    rw [List.mapM_cons, hnodes, hmatrix]
    rfl

/-- **`lineStringToParagraph` never throws**: it writes the nodes of the lines with line breaks
between them. -/
theorem lineStringToParagraph_spec (str : LineString) (styleName : JString) :
    ∃ nodesMatrix,
      lineStringToParagraph str styleName
        = .ok (Node.paragraph styleName (join [Node.lineBreak] nodesMatrix)) ∧
      List.Forall₂ (fun nodes line => ∃ last, Encodes last nodes line) nodesMatrix str.lines := by
  obtain ⟨nodesMatrix, hmatrix, h⟩ := mapM_lineToNodes str.lines
  refine ⟨nodesMatrix, ?_, h⟩
  unfold lineStringToParagraph
  rw [hmatrix]
  rfl

end ExamGeneratorNg
