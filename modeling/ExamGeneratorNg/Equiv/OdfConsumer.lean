import ExamGeneratorNg.Equiv.LineToNodes
import ExamGeneratorNg.OdfConsumer
import Mathlib.Data.List.TakeWhile

/-!
# What a consumer shows of a printed text

`showParagraph_eq_iff`: a paragraph shows the text it was built from if and only if the text has
no tab and does not start with a space.  A `text:s` is only written for a space behind a space,
so a space at the very start is character data and is dropped; a tab is never written as anything
but character data.  `lineToNodes_canonical`: the node list of a line is canonical, and without
white-space processing it shows as the line.
-/

namespace ExamGeneratorNg.Odf

/-! ### Character data -/

theorem charData_append (nodes₁ nodes₂ : List Node) :
    charData (nodes₁ ++ nodes₂) = charData nodes₁ ++ charData nodes₂ := by
  induction nodes₁ with
  | nil => rfl
  | cons node nodes₁ ih =>
    obtain ⟨data, children⟩ := node
    cases data with
    | text data => simp only [List.cons_append, charData, ih, List.append_assoc]
    | comment data => simp only [List.cons_append, charData, ih]
    | element ref tag attributes => simp only [List.cons_append, charData, ih]

theorem charData_dropLeading (nodes : List Node) :
    charData (dropLeading nodes) = (charData nodes).dropWhile (· = chr ' ') := by
  induction nodes with
  | nil => rfl
  | cons node nodes ih =>
    obtain ⟨data, children⟩ := node
    cases data with
    | text data =>
      rw [dropLeading, charData, List.dropWhile_append]
      cases hdata : data.dropWhile (· = chr ' ') with
      | nil => simp [charData, ih]
      | cons c rest => simp [charData]
    | comment data => rw [dropLeading, charData, charData, ih] <;> simp
    | element ref tag attributes => rw [dropLeading, charData, charData, ih] <;> simp

theorem dropLeading_eq_self {nodes : List Node} (h : (charData nodes).head? ≠ some (chr ' ')) :
    dropLeading nodes = nodes := by
  induction nodes with
  | nil => rfl
  | cons node nodes ih =>
    obtain ⟨data, children⟩ := node
    cases data with
    | text data =>
      rw [charData] at h
      cases data with
      | nil =>
        rw [dropLeading, List.dropWhile_nil, ih (by simpa using h)]
      | cons c data =>
        rw [dropLeading, List.dropWhile_cons_of_neg (by simpa using h)]
    | comment data => rw [dropLeading, ih (by simpa [charData] using h)]; simp
    | element ref tag attributes => rw [dropLeading, ih (by simpa [charData] using h)]; simp

theorem mapText_reverse_reverse (node : Node) :
    mapText List.reverse (mapText List.reverse node) = node := by
  obtain ⟨data, children⟩ := node
  cases data <;> simp [mapText]

theorem mirror_mirror (nodes : List Node) : mirror (mirror nodes) = nodes := by
  unfold mirror
  rw [List.map_reverse, List.reverse_reverse, List.map_map]
  conv_rhs => rw [← List.map_id nodes]
  exact List.map_congr_left fun node _ => mapText_reverse_reverse node

theorem mirror_cons (node : Node) (nodes : List Node) :
    mirror (node :: nodes) = mirror nodes ++ [mapText List.reverse node] := by
  unfold mirror
  rw [List.map_cons, List.reverse_cons]

theorem charData_mirror (nodes : List Node) :
    charData (mirror nodes) = (charData nodes).reverse := by
  induction nodes with
  | nil => rfl
  | cons node nodes ih =>
    rw [mirror_cons, charData_append, ih]
    obtain ⟨data, children⟩ := node
    cases data <;> simp [charData, mapText]

theorem dropTrailing_eq_self {nodes : List Node}
    (h : (charData nodes).getLast? ≠ some (chr ' ')) : dropTrailing nodes = nodes := by
  unfold dropTrailing
  rw [dropLeading_eq_self, mirror_mirror]
  rwa [charData_mirror, List.head?_reverse]

/-! ### What is shown -/

theorem length_prependToHead (s : JString) (lines : List JString) :
    ((prependToHead s lines).map List.length).sum = s.length + (lines.map List.length).sum := by
  cases lines with
  | nil => simp [prependToHead]
  | cons line lines =>
    simp [prependToHead]
    omega

/-- The number of spaces the `text:s` of the nodes stand for. -/
def spaceCount : List Node → ℕ
  | [] => 0
  | .node (.element _ (.space c) _) _ :: nodes => c + spaceCount nodes
  | _ :: nodes => spaceCount nodes

theorem spaceCount_append (nodes₁ nodes₂ : List Node) :
    spaceCount (nodes₁ ++ nodes₂) = spaceCount nodes₁ + spaceCount nodes₂ := by
  induction nodes₁ with
  | nil => simp [spaceCount]
  | cons node nodes₁ ih =>
    obtain ⟨data, children⟩ := node
    cases data with
    | text data => simp only [List.cons_append, spaceCount, ih]
    | comment data => simp only [List.cons_append, spaceCount, ih]
    | element ref tag attributes =>
      cases tag <;> simp only [List.cons_append, spaceCount, ih]
      omega

theorem spaceCount_dropLeading (nodes : List Node) :
    spaceCount (dropLeading nodes) = spaceCount nodes := by
  induction nodes with
  | nil => rfl
  | cons node nodes ih =>
    obtain ⟨data, children⟩ := node
    cases data with
    | text data =>
      rw [dropLeading]
      cases data.dropWhile (· = chr ' ') with
      | nil => simp [spaceCount, ih]
      | cons c rest => simp [spaceCount]
    | comment data => rw [dropLeading, spaceCount, spaceCount, ih] <;> simp
    | element ref tag attributes =>
      rw [dropLeading]
      · cases tag <;> simp only [spaceCount, ih]
      · simp

theorem spaceCount_mirror (nodes : List Node) : spaceCount (mirror nodes) = spaceCount nodes := by
  induction nodes with
  | nil => rfl
  | cons node nodes ih =>
    rw [mirror_cons, spaceCount_append, ih]
    obtain ⟨data, children⟩ := node
    cases data with
    | text data => simp [spaceCount, mapText]
    | comment data => simp [spaceCount, mapText]
    | element ref tag attributes =>
      cases tag <;> simp [spaceCount, mapText, Nat.add_comm]

/-- As much is shown as there is character data and spaces. -/
theorem sum_length_shownLines (nodes : List Node) :
    ((shownLines nodes).map List.length).sum = (charData nodes).length + spaceCount nodes := by
  induction nodes with
  | nil => rfl
  | cons node nodes ih =>
    obtain ⟨data, children⟩ := node
    cases data with
    | text data =>
      simp only [shownLines, length_prependToHead, ih, charData, spaceCount, List.length_append]
      omega
    | comment data => simpa only [shownLines, charData, spaceCount] using ih
    | element ref tag attributes =>
      cases tag with
      | space c =>
        simp only [shownLines, length_prependToHead, ih, charData, spaceCount,
          List.length_replicate]
        omega
      | lineBreak => simpa [shownLines, charData, spaceCount] using ih
      | tableCell => simpa only [shownLines, charData, spaceCount] using ih
      | paragraph styleName => simpa only [shownLines, charData, spaceCount] using ih
      | other name => simpa only [shownLines, charData, spaceCount] using ih

/-- A `text:line-break`. -/
def isLineBreak : Node → Bool
  | .node (.element _ .lineBreak _) _ => true
  | _ => false

/-- There is one more line than there are line breaks. -/
theorem length_shownLines (nodes : List Node) :
    (shownLines nodes).length = nodes.countP isLineBreak + 1 := by
  have hprepend : ∀ (s : JString) {lines : List JString} {n : ℕ}, lines.length = n + 1 →
      (prependToHead s lines).length = n + 1 := by
    intro s lines n h
    cases lines with
    | nil => exact absurd h (by simp)
    | cons line lines => exact h
  induction nodes with
  | nil => rfl
  | cons node nodes ih =>
    obtain ⟨data, children⟩ := node
    cases data with
    | text data => exact hprepend data ih
    | comment data => exact ih
    | element ref tag attributes =>
      cases tag with
      | space c => exact hprepend _ ih
      | lineBreak =>
        show (shownLines nodes).length + 1 = _
        rw [ih, List.countP_cons_of_pos (by rfl)]
      | tableCell => exact ih
      | paragraph styleName => exact ih
      | other name => exact ih

theorem mem_prependToHead {c : JChar} {s line : JString} {lines : List JString}
    (hline : line ∈ prependToHead s lines) (hc : c ∈ line) :
    c ∈ s ∨ ∃ line' ∈ lines, c ∈ line' := by
  cases lines with
  | nil =>
    obtain rfl := List.mem_singleton.mp hline
    exact Or.inl hc
  | cons line' lines =>
    rcases List.mem_cons.mp hline with rfl | hline
    · rcases List.mem_append.mp hc with hc | hc
      · exact Or.inl hc
      · exact Or.inr ⟨line', List.mem_cons_self, hc⟩
    · exact Or.inr ⟨line, List.mem_cons_of_mem _ hline, hc⟩

/-- Every character that is shown is character data or a space. -/
theorem mem_shownLines {c : JChar} {line : JString} {nodes : List Node}
    (hline : line ∈ shownLines nodes) (hc : c ∈ line) : c ∈ charData nodes ∨ c = chr ' ' := by
  induction nodes generalizing line with
  | nil =>
    obtain rfl := List.mem_singleton.mp hline
    exact absurd hc (by simp)
  | cons node nodes ih =>
    obtain ⟨data, children⟩ := node
    cases data with
    | text data =>
      rw [charData, List.mem_append]
      rcases mem_prependToHead hline hc with hc | ⟨line', hline', hc⟩
      · exact Or.inl (Or.inl hc)
      · exact (ih hline' hc).imp Or.inr id
    | comment data => exact ih hline hc
    | element ref tag attributes =>
      cases tag with
      | space n =>
        rcases mem_prependToHead hline hc with hc | ⟨line', hline', hc⟩
        · exact Or.inr (List.eq_of_mem_replicate hc)
        · exact ih hline' hc
      | lineBreak =>
        rcases List.mem_cons.mp hline with rfl | hline
        · exact absurd hc (by simp)
        · exact ih hline hc
      | tableCell => exact ih hline hc
      | paragraph styleName => exact ih hline hc
      | other name => exact ih hline hc

/-! ### White space -/

theorem collapseRuns_subset (data : JString) : collapseRuns data ⊆ data := by
  induction data using collapseRuns.induct with
  | case1 a b s hspaces ih =>
    rw [collapseRuns, if_pos hspaces]
    exact List.Subset.trans ih (List.subset_cons_self a _)
  | case2 a b s hspaces ih =>
    rw [collapseRuns, if_neg hspaces]
    exact List.cons_subset_cons a ih
  | case3 s hs =>
    rw [collapseRuns]
    · exact List.Subset.refl s
    · exact hs

theorem collapseRuns_eq_self {data : JString} (h : NoDoubleSpace data) :
    collapseRuns data = data := by
  induction data using collapseRuns.induct with
  | case1 a b s hspaces ih => exact absurd hspaces (List.isChain_cons_cons.mp h).1
  | case2 a b s hspaces ih =>
    rw [collapseRuns, if_neg hspaces, ih (List.isChain_cons_cons.mp h).2]
  | case3 s hs =>
    rw [collapseRuns]
    exact hs

theorem tab_not_mem_tabsToSpaces (data : JString) : chr '\t' ∉ tabsToSpaces data := by
  intro h
  obtain ⟨c, -, hc⟩ := List.mem_map.mp h
  split at hc
  · exact absurd hc (by decide)
  · next hne =>
    rw [hc] at hne
    exact hne (by decide)

theorem tabsToSpaces_eq_self {data : JString} (h : ∀ c ∈ data, countsAsSpace c = false) :
    tabsToSpaces data = data := by
  unfold tabsToSpaces
  conv_rhs => rw [← List.map_id data]
  refine List.map_congr_left fun c hc => ?_
  rw [h c hc]
  rfl

theorem tab_not_mem_collapseTexts (nodes : List Node) :
    chr '\t' ∉ charData (collapseTexts nodes) := by
  induction nodes with
  | nil => simp [collapseTexts, charData]
  | cons node nodes ih =>
    obtain ⟨data, children⟩ := node
    cases data with
    | text data =>
      show chr '\t' ∉ collapseRuns (tabsToSpaces data) ++ charData (collapseTexts nodes)
      rw [List.mem_append]
      rintro (h | h)
      · exact tab_not_mem_tabsToSpaces data (collapseRuns_subset _ h)
      · exact ih h
    | comment data => exact ih
    | element ref tag attributes => exact ih

theorem charData_dropLeading_subset (nodes : List Node) :
    charData (dropLeading nodes) ⊆ charData nodes := by
  rw [charData_dropLeading]
  exact (List.dropWhile_sublist _).subset

theorem charData_dropTrailing_subset (nodes : List Node) :
    charData (dropTrailing nodes) ⊆ charData nodes := by
  unfold dropTrailing
  rw [charData_mirror]
  intro c hc
  have hc := charData_dropLeading_subset _ (List.mem_reverse.mp hc)
  rw [charData_mirror] at hc
  exact List.mem_reverse.mp hc

/-- No tab is ever shown. -/
theorem tab_not_mem_showParagraph {paragraph : Node} {line : JString}
    (hline : line ∈ showParagraph paragraph) : chr '\t' ∉ line := by
  intro hc
  rcases mem_shownLines hline hc with h | h
  · exact tab_not_mem_collapseTexts _ (charData_dropLeading_subset _
      (charData_dropTrailing_subset _ h))
  · exact absurd h (by decide)

/-- A space at the very start is not shown. -/
theorem sum_length_drop_lt {nodes : List Node} (h : (charData nodes).head? = some (chr ' ')) :
    ((shownLines (dropTrailing (dropLeading nodes))).map List.length).sum
      < ((shownLines nodes).map List.length).sum := by
  -- dropping keeps every `text:s` and makes the character data shorter
  rw [sum_length_shownLines, sum_length_shownLines]
  have hspaces : spaceCount (dropTrailing (dropLeading nodes)) = spaceCount nodes := by
    unfold dropTrailing
    rw [spaceCount_mirror, spaceCount_dropLeading, spaceCount_mirror, spaceCount_dropLeading]
  have htrailing : (charData (dropTrailing (dropLeading nodes))).length
      ≤ (charData (dropLeading nodes)).length := by
    unfold dropTrailing
    rw [charData_mirror, charData_dropLeading, charData_mirror, List.length_reverse]
    exact (List.dropWhile_sublist _).length_le.trans (by rw [List.length_reverse])
  have hleading : (charData (dropLeading nodes)).length < (charData nodes).length := by
    rw [charData_dropLeading]
    obtain ⟨rest, hrest⟩ := List.head?_eq_some_iff.mp h
    rw [hrest, List.dropWhile_cons_of_pos (by simp)]
    have := (List.dropWhile_sublist (l := rest) fun c => decide (c = chr ' ')).length_le
    simp only [List.length_cons]
    omega
  omega

/-! ### Encoded lines -/

theorem encodes_head? {last : LastNode} {nodes : List Node} {line : JString}
    (h : Encodes last nodes line) : (charData nodes).head? = line.head? := by
  induction h with
  | nil => rfl
  | firstText data hne hdouble => simp [Node.text, charData]
  | @space nodes s h hlast c hc ih =>
    have hs : s ≠ [] := by
      rintro rfl
      exact absurd hlast (by simp)
    rw [charData_append, List.head?_append, List.head?_append, ih]
    obtain ⟨a, s, rfl⟩ := List.exists_cons_of_ne_nil hs
    rfl
  | @laterText nodes s h data hne hdouble hhead ih =>
    rw [charData_append, List.head?_append, List.head?_append, ih]
    simp [Node.text, charData]

theorem encodes_getLast? {last : LastNode} {nodes : List Node} {line : JString}
    (h : Encodes last nodes line) (hlast : line.getLast? ≠ some (chr ' ')) :
    (charData nodes).getLast? = line.getLast? := by
  cases h with
  | nil => rfl
  | firstText _ hne hdouble => simp [Node.text, charData]
  | space h hs c hc =>
    refine absurd ?_ hlast
    obtain ⟨c, rfl⟩ := Nat.exists_eq_add_of_le' hc
    rw [List.replicate_succ', ← List.append_assoc, List.getLast?_concat]
  | laterText h data hne hdouble hhead =>
    obtain ⟨a, data, rfl⟩ := List.exists_cons_of_ne_nil hne
    rw [charData_append, List.getLast?_append, List.getLast?_append]
    simp [Node.text, charData, List.getLast?_cons]

theorem collapseTexts_append (nodes₁ nodes₂ : List Node) :
    collapseTexts (nodes₁ ++ nodes₂) = collapseTexts nodes₁ ++ collapseTexts nodes₂ :=
  List.map_append

theorem collapseTexts_text {data : JString} (hdouble : NoDoubleSpace data)
    (hspace : ∀ c ∈ data, countsAsSpace c = false) :
    collapseTexts [Node.text data] = [Node.text data] := by
  show [Node.text (collapseRuns (tabsToSpaces data))] = _
  rw [tabsToSpaces_eq_self hspace, collapseRuns_eq_self hdouble]

/-- There is nothing to normalize inside an encoded line without a tab or line end. -/
theorem encodes_collapseTexts {last : LastNode} {nodes : List Node} {line : JString}
    (h : Encodes last nodes line) (hspace : ∀ c ∈ line, countsAsSpace c = false) :
    collapseTexts nodes = nodes := by
  induction h with
  | nil => rfl
  | firstText data hne hdouble => exact collapseTexts_text hdouble hspace
  | space h hlast c hc ih =>
    rw [collapseTexts_append, ih fun a ha => hspace a (List.mem_append_left _ ha)]
    rfl
  | laterText h data hne hdouble hhead ih =>
    rw [collapseTexts_append, ih fun a ha => hspace a (List.mem_append_left _ ha),
      collapseTexts_text hdouble fun a ha => hspace a (List.mem_append_right _ ha)]

theorem prependToHead_prependToHead (s t : JString) (lines : List JString) :
    prependToHead s (prependToHead t lines) = prependToHead (s ++ t) lines := by
  cases lines with
  | nil => rfl
  | cons line lines => simp [prependToHead]

theorem prependToHead_nil (nodes : List Node) :
    prependToHead [] (shownLines nodes) = shownLines nodes := by
  cases hlines : shownLines nodes with
  | nil =>
    -- at least one line is always shown
    have hlength := length_shownLines nodes
    rw [hlines, List.length_nil] at hlength
    omega
  | cons line lines => rfl

/-- The nodes of an encoded line spell it. -/
theorem encodes_shownLines {last : LastNode} {nodes : List Node} {line : JString}
    (h : Encodes last nodes line) (rest : List Node) :
    shownLines (nodes ++ rest) = prependToHead line (shownLines rest) := by
  induction h generalizing rest with
  | nil => exact (prependToHead_nil rest).symm
  | firstText data hne hdouble => rfl
  | space h hlast c hc ih =>
    rw [List.append_assoc, ih, ← prependToHead_prependToHead]
    rfl
  | laterText h data hne hdouble hhead ih =>
    rw [List.append_assoc, ih, ← prependToHead_prependToHead]
    rfl

theorem shownLines_of_encodes {last : LastNode} {nodes : List Node} {line : JString}
    (h : Encodes last nodes line) : shownLines nodes = [line] := by
  have hshown := encodes_shownLines h []
  rw [List.append_nil] at hshown
  simpa [shownLines, prependToHead] using hshown

/-- **The node list of a line is canonical and lossless**, whenever the loop of `lineToNodes` has
come to some place in the line: it has thrown nothing, its nodes are canonical, and they spell what
has been passed. -/
theorem lineToNodes_canonical (line : JString) (n : ℕ) :
    ∃ nodes, (line.take n).foldlM combineNodesWithChar [] = .ok nodes ∧
      lineToNodes line = (line.drop n).foldlM combineNodesWithChar nodes ∧
      Canonical nodes ∧ shownLines nodes = [line.take n] := by
  obtain ⟨last, nodes, hnodes, hencodes⟩ := foldlM_combineNodesWithChar .nil (line.take n)
  refine ⟨nodes, hnodes, ?_, hencodes.canonical, shownLines_of_encodes hencodes⟩
  unfold lineToNodes
  conv_lhs => rw [← List.take_append_drop n line]
  rw [List.foldlM_append, hnodes]
  rfl

/-! ### Encoded texts -/

theorem join_cons {T : Type} {xss : List (List T)} (h : xss ≠ []) (sep xs : List T) :
    join sep (xs :: xss) = xs ++ sep ++ join sep xss := by
  obtain ⟨ys, rest, rfl⟩ := List.exists_cons_of_ne_nil h
  rfl

section

variable {nodesMatrix : List (List Node)} {lines : List JString}
  (h : List.Forall₂ (fun nodes line => ∃ last, Encodes last nodes line) nodesMatrix lines)

include h

theorem head?_charData_join :
    (charData (join [Node.lineBreak] nodesMatrix)).head? = lines.flatten.head? := by
  induction h with
  | nil => rfl
  | @cons nodes line nodesMatrix lines hline hlines ih =>
    obtain ⟨last, hline⟩ := hline
    rw [List.flatten_cons, List.head?_append, ← encodes_head? hline]
    cases hlines with
    | nil => simp [join]
    | cons hline' hlines' =>
      rw [join_cons (by simp), charData_append, charData_append, List.head?_append, ih,
        List.head?_append]
      simp [Node.lineBreak, charData]

theorem getLast?_charData_join (hlast : ∀ line ∈ lines, line.getLast? ≠ some (chr ' ')) :
    (charData (join [Node.lineBreak] nodesMatrix)).getLast? = lines.flatten.getLast? := by
  induction h with
  | nil => rfl
  | @cons nodes line nodesMatrix lines hline hlines ih =>
    obtain ⟨last, hline⟩ := hline
    rw [List.flatten_cons, List.getLast?_append, ← encodes_getLast? hline (hlast line (by simp))]
    cases hlines with
    | nil => simp [join]
    | cons hline' hlines' =>
      rw [join_cons (by simp), charData_append, charData_append, List.getLast?_append,
        ih fun line hline => hlast line (List.mem_cons_of_mem _ hline)]
      simp [Node.lineBreak, charData]

theorem collapseTexts_join (hspace : ∀ line ∈ lines, ∀ c ∈ line, countsAsSpace c = false) :
    collapseTexts (join [Node.lineBreak] nodesMatrix) = join [Node.lineBreak] nodesMatrix := by
  induction h with
  | nil => rfl
  | @cons nodes line nodesMatrix lines hline hlines ih =>
    obtain ⟨last, hline⟩ := hline
    have hnodes := encodes_collapseTexts hline (hspace line (by simp))
    cases hlines with
    | nil => exact hnodes
    | cons hline' hlines' =>
      rw [join_cons (by simp), collapseTexts_append, collapseTexts_append, hnodes,
        ih fun line hline => hspace line (List.mem_cons_of_mem _ hline)]
      rfl

/-- Without white-space processing, exactly the lines would be shown. -/
theorem shownLines_join (hne : lines ≠ []) :
    shownLines (join [Node.lineBreak] nodesMatrix) = lines := by
  induction h with
  | nil => exact absurd rfl hne
  | @cons nodes line nodesMatrix lines hline hlines ih =>
    obtain ⟨last, hline⟩ := hline
    cases hlines with
    | nil => exact shownLines_of_encodes hline
    | cons hline' hlines' =>
      rw [join_cons (by simp), List.append_assoc, encodes_shownLines hline, List.singleton_append]
      show prependToHead line ([] :: shownLines (join [Node.lineBreak] _)) = _
      rw [ih (by simp), prependToHead, List.append_nil]

end

theorem exists_of_getLast?_flatten {T : Type} {xss : List (List T)} {a : T}
    (h : xss.flatten.getLast? = some a) : ∃ xs ∈ xss, xs.getLast? = some a := by
  induction xss with
  | nil => exact absurd h (by simp)
  | cons xs xss ih =>
    rw [List.flatten_cons, List.getLast?_append, Option.or_eq_some_iff] at h
    rcases h with h | ⟨-, h⟩
    · obtain ⟨ys, hys, h⟩ := ih h
      exact ⟨ys, List.mem_cons_of_mem _ hys, h⟩
    · exact ⟨xs, List.mem_cons_self, h⟩

/-- **When a printed text keeps its spacing**: a consumer shows the text a paragraph was built
from if and only if no line of it has a tab and it does not start with a space. -/
theorem showParagraph_eq_iff (str : LineString) (styleName : JString) (hne : str.lines ≠ [])
    (hterm : ∀ line ∈ str.lines, ∀ c ∈ line, isLineTerminator c = false)
    (hlast : ∀ line ∈ str.lines,
      line.getLast? ≠ some (chr ' ') ∧ line.getLast? ≠ some (chr '\t')) :
    ∃ paragraph, lineStringToParagraph str styleName = .ok paragraph ∧
      (showParagraph paragraph = str.lines ↔
        (∀ line ∈ str.lines, chr '\t' ∉ line) ∧ str.lines.flatten.head? ≠ some (chr ' ')) := by
  obtain ⟨nodesMatrix, hparagraph, h⟩ := lineStringToParagraph_spec str styleName
  refine ⟨_, hparagraph, ?_⟩
  have hhead := head?_charData_join h
  -- line ends do not occur, so only tabs are normalized
  have hcollapse : (∀ line ∈ str.lines, chr '\t' ∉ line) →
      collapseTexts (join [Node.lineBreak] nodesMatrix) = join [Node.lineBreak] nodesMatrix := by
    intro htab
    refine collapseTexts_join h fun line hline c hc => ?_
    have hc' := hterm line hline c hc
    simp only [isLineTerminator, Bool.or_eq_false_iff, decide_eq_false_iff_not] at hc'
    simp only [countsAsSpace, Bool.or_eq_false_iff, decide_eq_false_iff_not]
    refine ⟨⟨?_, hc'.1.1.1.1⟩, hc'.1.1.1.2⟩
    rintro rfl
    exact htab line hline hc
  constructor
  · intro hshown
    have htab : ∀ line ∈ str.lines, chr '\t' ∉ line := fun line hline =>
      tab_not_mem_showParagraph (hshown ▸ hline)
    refine ⟨htab, fun hspace => ?_⟩
    have hlt := sum_length_drop_lt (hhead.trans hspace)
    unfold showParagraph at hshown
    rw [Node.paragraph, RoseTree.children_node, hcollapse htab] at hshown
    rw [hshown, shownLines_join h hne] at hlt
    exact absurd hlt (lt_irrefl _)
  · rintro ⟨htab, hspace⟩
    unfold showParagraph
    rw [Node.paragraph, RoseTree.children_node, hcollapse htab,
      dropLeading_eq_self (by rwa [hhead]), dropTrailing_eq_self, shownLines_join h hne]
    rw [getLast?_charData_join h fun line hline => (hlast line hline).1]
    intro hflatten
    obtain ⟨line, hline, hline'⟩ := exists_of_getLast?_flatten hflatten
    exact (hlast line hline).1 hline'

/-- The indentation of a first line is lost. -/
theorem showParagraph_leading_space_lost :
    ¬ ∀ (str : LineString) (styleName : JString), str.lines ≠ [] →
      (∀ line ∈ str.lines, ∀ c ∈ line, isLineTerminator c = false) →
      (∀ line ∈ str.lines, line.getLast? ≠ some (chr ' ') ∧ line.getLast? ≠ some (chr '\t')) →
      ∃ paragraph, lineStringToParagraph str styleName = .ok paragraph ∧
        showParagraph paragraph = str.lines := by
  intro h
  obtain ⟨paragraph, hparagraph, hshown⟩ :=
    h ⟨[jstr "  x;"]⟩ [] (by simp) (by decide) (by decide)
  have hbuilt : lineStringToParagraph ⟨[jstr "  x;"]⟩ []
      = .ok (Node.paragraph [] [Node.text (jstr " "), Node.space 1, Node.text (jstr "x;")]) := rfl
  rw [hbuilt, Except.ok.injEq] at hparagraph
  rw [← hparagraph] at hshown
  revert hshown
  decide

/-- Inner spaces and the indentation of a later line are kept. -/
theorem showParagraph_eq_iff_example :
    ∃ paragraph,
      lineStringToParagraph ⟨[jstr "if (a)", jstr "    b  = 1;"]⟩ [] = .ok paragraph ∧
      showParagraph paragraph = [jstr "if (a)", jstr "    b  = 1;"] := by
  obtain ⟨paragraph, hparagraph, hshown⟩ := showParagraph_eq_iff
    ⟨[jstr "if (a)", jstr "    b  = 1;"]⟩ [] (by simp) (by decide) (by decide)
  exact ⟨paragraph, hparagraph, hshown.mpr ⟨by decide, by decide⟩⟩

end ExamGeneratorNg.Odf
