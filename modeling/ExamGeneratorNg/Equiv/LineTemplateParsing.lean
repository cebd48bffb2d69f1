import ExamGeneratorNg.Equiv.GapParsing
import ExamGeneratorNg.Equiv.DirectiveParsing

/-!
# Correctness of `parseLineTemplate`

`parseLineTemplate_print`: a line that is written from its nodes, its kind and its group is parsed
back to exactly these, whatever white space stands around the directives.

The nodes come back because cutting a written line at its gaps undoes writing it
(`gapSplit_print`): a text without a gap marker in it starts no gap, not even together with the
marker behind it.  The directives come back because each is the only one its string ends in once
the ones behind it are gone.  They have to stand in the right order
(`parseLineTemplate_swapped_ne`), and white space behind them is removed with them, but belongs to
the line behind anything else (`normalizeLine_concat_of_endsInDirective` and the lemma after it).

`parseNormalizedLine_spec` says which gaps are found on any line: the leftmost ones.
-/

namespace ExamGeneratorNg

open Regex

/-! ### Totality -/

theorem parseLineTemplate_of_normalizeLine {lineStr content : JString} {kind : LineKind}
    {group : Option Group} {nodes : List LineNode}
    (hnormalize : normalizeLine lineStr = .ok ⟨content, kind, group⟩)
    (hnodes : parseNormalizedLine content = .ok nodes) :
    parseLineTemplate lineStr = .ok ⟨nodes, kind, group⟩ := by
  unfold parseLineTemplate
  rw [hnormalize]
  show (parseNormalizedLine content >>= _) = _
  rw [hnodes]
  rfl

/-- **`parseLineTemplate` never throws.** -/
theorem parseLineTemplate_ok (lineStr : JString) :
    ∃ line, parseLineTemplate lineStr = .ok line := by
  obtain ⟨normalized, h⟩ := normalizeLine_ok lineStr
  exact ⟨_, parseLineTemplate_of_normalizeLine h (parseNormalizedLine_eq _)⟩

theorem mapM_parseLineTemplate_ok (lines : List JString) :
    ∃ lineTemplates, lines.mapM parseLineTemplate = .ok lineTemplates := by
  induction lines with
  | nil => exact ⟨[], rfl⟩
  | cons line lines ih =>
    obtain ⟨lineTemplate, h⟩ := parseLineTemplate_ok line
    obtain ⟨lineTemplates, hs⟩ := ih
    refine ⟨lineTemplate :: lineTemplates, ?_⟩
    rw [List.mapM_cons, h, hs]
    rfl

/-- **`parseProgramTemplate` never throws.** -/
theorem parseProgramTemplate_ok (str : JString) :
    ∃ programTemplate, parseProgramTemplate str = .ok programTemplate := by
  obtain ⟨lineTemplates, h⟩ := mapM_parseLineTemplate_ok (splitByNewline str)
  refine ⟨⟨lineTemplates⟩, ?_⟩
  rw [parseProgramTemplate, h]
  rfl

/-! ### Cutting undoes writing -/

/-- A non-empty end of a text without a gap marker starts no gap, whatever gap follows. -/
theorem gapAt_text_append {t : JString} (ht : ¬ gapMarker <:+: t) (p : GapContent × JString)
    (rest : JString) {t₁ t₂ : JString} (htt : t = t₁ ++ t₂) (ht₂ : t₂ ≠ []) :
    gapAt (t₂ ++ (printGap p ++ rest)) = none := by
  obtain ⟨g, text⟩ := p
  match t₂ with
  | [] => exact absurd rfl ht₂
  | [a] =>
    by_cases ha : a = chr '_'
    · -- the text ends in an underscore: three underscores, and no gap content can start with one
      subst ha
      have hform : [chr '_'] ++ (printGap (g, text) ++ rest)
          = gapMarker ++ [] ++ chr '_' :: (g.content ++ (gapMarker ++ text ++ rest)) := by
        simp [printGap, gapMarker]
      rw [hform]
      apply gapAt_marker_of_ne (by simp)
      rintro ⟨u, hu⟩
      obtain ⟨c, cs, hc⟩ := List.exists_cons_of_ne_nil g.ne_nil
      rw [hc] at hu
      simp only [gapMarker, List.cons_append, List.cons.injEq] at hu
      apply g.underscore_not_mem
      rw [hc, ← hu.2.1]
      simp
    · exact gapAt_cons_cons_of_ne (fun h => ha h.1) _
  | a :: b :: t₂ =>
    apply gapAt_cons_cons_of_ne
    rintro ⟨rfl, rfl⟩
    exact ht ⟨t₁, t₂, by simp [htt, gapMarker]⟩

/-- A text without a gap marker has no gap. -/
theorem gapSplit_of_no_marker {t : JString} (ht : ¬ gapMarker <:+: t) : gapSplit t = ⟨t, []⟩ := by
  apply gapSplit_eq_text
  intro t₁ rest htt
  cases hgap : gapAt rest with
  | none => rfl
  | some p =>
    obtain ⟨g, after⟩ := p
    have hrest := eq_of_gapAt hgap
    exact absurd ⟨t₁, g.content ++ gapMarker ++ after, by simp [htt, hrest]⟩ ht

/-- **Cutting a line at its gaps undoes writing it**, if no text has a gap marker in it. -/
theorem gapSplit_print (line : GappedLine) (htext : ¬ gapMarker <:+: line.text)
    (htail : ∀ p ∈ line.tail, ¬ gapMarker <:+: p.2) : gapSplit line.print = line := by
  obtain ⟨text, tail⟩ := line
  induction tail generalizing text with
  | nil =>
    rw [GappedLine.print, List.flatMap_nil, List.append_nil]
    exact gapSplit_of_no_marker htext
  | cons p tail ih =>
    have hrest : gapSplit (GappedLine.mk p.2 tail).print = ⟨p.2, tail⟩ :=
      ih p.2 (htail p (by simp)) fun q hq => htail q (List.mem_cons_of_mem _ hq)
    -- behind the text the first gap starts, and none before
    have hgap : gapAt (printGap p ++ tail.flatMap printGap)
        = some (p.1, (GappedLine.mk p.2 tail).print) := by
      have := gapAt_printGap p.1 (GappedLine.mk p.2 tail).print
      rw [← this]
      simp [printGap, GappedLine.print]
    rw [GappedLine.print, List.flatMap_cons,
      gapSplit_append fun t₁ t₂ ht ht₂ => gapAt_text_append htext p _ ht ht₂,
      gapSplit_of_gapAt hgap, hrest]
    simp

/-! ### Written lines -/

/-- The nodes alternate text, gap, text, …, text. -/
inductive Alternates : List LineNode → Prop
  | text (t : JString) : Alternates [.text t]
  | cons (t g : JString) {nodes : List LineNode} (h : Alternates nodes) :
      Alternates (.text t :: .gap g :: nodes)

namespace LineNode

/-- The content of the node. -/
def content : LineNode → JString
  | text content => content
  | gap content => content

/-- The node as it is written. -/
def print : LineNode → JString
  | text content => content
  | gap content => gapMarker ++ content ++ gapMarker

/-- A text has no gap marker in it, a gap is non-empty and has no underscore, and neither has a
line terminator. -/
def WellFormed : LineNode → Prop
  | text content => ¬ gapMarker <:+: content ∧ ∀ c ∈ content, isLineTerminator c = false
  | gap content => content ≠ [] ∧ chr '_' ∉ content ∧ ∀ c ∈ content, isLineTerminator c = false

end LineNode

/-- The body of a line, as it is written. -/
def printNodes (nodes : List LineNode) : JString := nodes.flatMap LineNode.print

/-- The kind directive with the white space `u` in front of it. -/
def printKind (kind : LineKind) (u : JString) : JString :=
  match kind with
  | .normal => []
  | .hidden => u ++ chr '%' :: jstr "hidden"
  | .excluded => u ++ chr '%' :: jstr "excluded"

/-- The lowercase letter of a group. -/
def Group.letter (group : Group) : JChar := UInt16.ofNat ('a'.toNat + group.index.toNat)

/-- The group directive with the white space `u` in front of it. -/
def printGroup (group : Option Group) (u : JString) : JString :=
  match group with
  | none => []
  | some group => u ++ [chr '%', group.letter]

/-- The string ends in white space. -/
def EndsInSpace (s : JString) : Prop := ∃ c ∈ s.getLast?, isSpace c = true

/-- The string ends in `%excluded`, `%hidden` or `%` and a lowercase letter. -/
def EndsInDirective (s : JString) : Prop :=
  chr '%' :: jstr "excluded" <:+ s ∨ chr '%' :: jstr "hidden" <:+ s ∨
    ∃ c, isLowercase c = true ∧ [chr '%', c] <:+ s

theorem not_endsInSpace {s : JString} {c : JChar} (hlast : s.getLast? = some c)
    (hc : isSpace c = false) : ¬ EndsInSpace s := by
  rintro ⟨c', hc', hspace⟩
  rw [hlast, Option.mem_some_iff] at hc'
  rw [← hc', hc] at hspace
  cases hspace

/-- Where there is no `%`, there is no directive. -/
theorem not_endsInDirective_of_percent_notMem {s : JString} (h : chr '%' ∉ s) :
    ¬ EndsInDirective s := by
  rintro (hend | hend | ⟨c, -, hend⟩)
  · exact h (hend.subset List.mem_cons_self)
  · exact h (hend.subset List.mem_cons_self)
  · exact h (hend.subset List.mem_cons_self)

/-- Well-formed alternating nodes are the nodes of a cut line. -/
theorem exists_gappedLine {nodes : List LineNode} (halt : Alternates nodes)
    (hwf : ∀ node ∈ nodes, node.WellFormed) :
    ∃ line : GappedLine, line.nodes = nodes ∧ line.print = printNodes nodes ∧
      ¬ gapMarker <:+: line.text ∧ ∀ p ∈ line.tail, ¬ gapMarker <:+: p.2 := by
  induction halt with
  | text t =>
    refine ⟨⟨t, []⟩, rfl, ?_, (hwf (.text t) (by simp)).1, by simp⟩
    simp [GappedLine.print, printNodes, LineNode.print]
  | cons t g halt ih =>
    obtain ⟨line, hnodes, hprint, htext, htail⟩ := ih fun node hnode =>
      hwf node (List.mem_cons_of_mem _ (List.mem_cons_of_mem _ hnode))
    have hg := hwf (.gap g) (by simp)
    refine ⟨⟨t, (⟨g, hg.1, hg.2.1⟩, line.text) :: line.tail⟩, ?_, ?_,
      (hwf (.text t) (by simp)).1, ?_⟩
    · simp [GappedLine.nodes, ← hnodes]
    · rw [printNodes, List.flatMap_cons, List.flatMap_cons, ← printNodes, ← hprint]
      simp [GappedLine.print, printGap, LineNode.print]
    · intro p hp
      rcases List.mem_cons.mp hp with rfl | hp
      · exact htext
      · exact htail p hp

theorem trimRight_of_not_endsInSpace {s : JString} (h : ¬ EndsInSpace s) : trimRight s = s := by
  apply trimRight_eq_self
  intro c hc
  by_contra hspace
  rw [Bool.not_eq_false] at hspace
  exact h ⟨c, hc, hspace⟩

/-- The directive of a string without white space at its end and without line terminators stands
at its very end. -/
theorem Directive.eq_of_not_endsInSpace {s lead w v tail : JString}
    (h : Directive s lead w v tail) (hspace : ¬ EndsInSpace s)
    (hterm : ∀ c ∈ s, isLineTerminator c = false) : s = lead ++ chr '%' :: w := by
  have htail : tail = [] := by
    obtain h0 | ⟨c, h0, hc, -⟩ := h.tail
    · exact h0
    · rw [hterm c (by rw [h.eq, h0]; simp)] at hc
      exact absurd hc (by simp)
  rcases List.eq_nil_or_concat v with hv | ⟨v', c, hv⟩
  · rw [h.eq, htail, hv]
    simp
  · refine absurd ⟨c, ?_, h.space c (by simp [hv])⟩ hspace
    have hs : s = (lead ++ chr '%' :: (w ++ v')) ++ [c] := by
      rw [h.eq, htail, hv]
      simp
    rw [hs, List.getLast?_concat]
    rfl

/-! ### White space behind a line -/

/-- The line ends in a directive, with white space behind it. -/
theorem endsInDirective_trimRight_iff {s : JString} :
    EndsInDirective (trimRight s) ↔
      ∃ lead w v, Directive s lead w v [] ∧ IsDirectiveName w := by
  obtain ⟨u, hs, hu⟩ := exists_trimRight s
  constructor
  · have hdirective : ∀ w, (∀ c ∈ w, isLowercase c = true) → chr '%' :: w <:+ trimRight s →
        IsDirectiveName w → ∃ lead w v, Directive s lead w v [] ∧ IsDirectiveName w := by
      rintro w hlower ⟨lead, hlead⟩ hw
      refine ⟨lead, w, u, ⟨?_, hlower, hu, .inl rfl⟩, hw⟩
      conv_lhs => rw [hs, ← hlead]
      simp
    rintro (h | h | ⟨c, hc, h⟩)
    · exact hdirective _ (by decide) h (.inr (.inl rfl))
    · exact hdirective _ (by decide) h (.inr (.inr rfl))
    · exact hdirective [c] (by simpa using hc) h (.inl ⟨c, rfl⟩)
  · rintro ⟨lead, w, v, h, hw⟩
    have htrim : trimRight s = lead ++ chr '%' :: w := by
      rw [h.eq, List.append_nil, ← List.cons_append, ← List.append_assoc, trimRight_append h.space]
      obtain ⟨w', c, rfl⟩ := (List.eq_nil_or_concat' w).resolve_left hw.ne_nil
      have hc := not_isSpace_of_isLowercase (h.lowercase c (by simp))
      have hlast : lead ++ chr '%' :: (w' ++ [c]) = lead ++ chr '%' :: w' ++ c :: [] := by simp
      rw [hlast, trimRight_append_cons hc]
      rfl
    rw [htrim]
    rcases hw with ⟨c, rfl⟩ | rfl | rfl
    · exact .inr (.inr ⟨c, h.lowercase c (by simp), lead, rfl⟩)
    · exact .inl ⟨lead, rfl⟩
    · exact .inr (.inl ⟨lead, rfl⟩)

/-- White space behind a directive is removed with it. -/
theorem normalizeLine_concat_of_endsInDirective {s : JString} {c : JChar} (hc : isSpace c = true)
    (h : EndsInDirective (trimRight s)) : normalizeLine (s ++ [c]) = normalizeLine s := by
  obtain ⟨lead, w, v, h, hw⟩ := endsInDirective_trimRight_iff.mp h
  exact normalizeLine_congr ((directive_concat_iff hc hw.ne_nil).mpr ⟨rfl, v, rfl, h⟩) h hw

/-- White space behind anything else belongs to the line. -/
theorem normalizeLine_concat_of_not_endsInDirective {s : JString} {c : JChar}
    (hc : isSpace c = true) (h : ¬ EndsInDirective (trimRight s)) :
    normalizeLine (s ++ [c]) = .ok ⟨s ++ [c], .normal, none⟩ := by
  apply normalizeLine_of_no_directive
  intro lead w v tail hd hw
  obtain ⟨-, v', -, hd⟩ := (directive_concat_iff hc hw.ne_nil).mp hd
  exact h (endsInDirective_trimRight_iff.mpr ⟨lead, w, v', hd, hw⟩)

/-- A directive that has more than white space behind it has a line terminator there, which
stays. -/
theorem normalizeLine_of_not_endsInDirective {s : JString}
    (h : ¬ EndsInDirective (trimRight s)) :
    normalizeLine s = .ok ⟨s, .normal, none⟩ ∨
      ∃ line c, normalizeLine s = .ok line ∧ line.content.getLast? = some c ∧
        isLineTerminator c = true ∧ isSpace c = false := by
  by_cases hd : ∃ lead w v tail, Directive s lead w v tail ∧ IsDirectiveName w
  · right
    obtain ⟨lead, w, v, tail, hd, hw⟩ := hd
    rcases hd.tail with rfl | ⟨c, rfl, hc, hspace⟩
    · exact absurd (endsInDirective_trimRight_iff.mpr ⟨lead, w, v, hd, hw⟩) h
    · rcases hw with ⟨letter, rfl⟩ | rfl | rfl
      · exact ⟨_, c, normalizeLine_of_group hd, getLast?_normalizeLineInner hc hspace _, hc, hspace⟩
      · refine ⟨_, c, normalizeLine_of_length_ne_one hd (by decide), ?_, hc, hspace⟩
        rw [normalizeLineInner_of_excluded hd]
        exact List.getLast?_concat
      · refine ⟨_, c, normalizeLine_of_length_ne_one hd (by decide), ?_, hc, hspace⟩
        rw [normalizeLineInner_of_hidden hd]
        exact List.getLast?_concat
  · left
    exact normalizeLine_of_no_directive fun lead w v tail h hw => hd ⟨lead, w, v, tail, h, hw⟩

/-! ### The round trip -/

theorem Group.letter_spec {group : Group} (h0 : 0 ≤ group.index) (h26 : group.index < 26) :
    isLowercase group.letter = true ∧ letterGroup group.letter = group := by
  have hnat : group.letter.toNat = 97 + group.index.toNat := by
    show (UInt16.ofNat (97 + group.index.toNat)).toNat = _
    rw [UInt16.toNat_ofNat_of_lt']
    show 97 + group.index.toNat < 65536
    omega
  constructor
  · simp only [isLowercase, Bool.and_eq_true, decide_eq_true_eq, UInt16.le_iff_toNat_le, hnat]
    have ha : (chr 'a').toNat = 97 := by decide
    have hz : (chr 'z').toNat = 122 := by decide
    omega
  · obtain ⟨index⟩ := group
    have ha : (chr 'a').toNat = 97 := by decide
    simp only at h0
    simp only [letterGroup, hnat, ha, Group.mk.injEq]
    omega

section RoundTrip

variable {body : JString} (hspace : ¬ EndsInSpace body) (hdirective : ¬ EndsInDirective body)
  (hterm : ∀ c ∈ body, isLineTerminator c = false)

include hspace in
/-- The written kind is a directive. -/
theorem directive_printKind {kind : LineKind} (hkind : kind ≠ .normal) {u v : JString}
    (hu : ∀ c ∈ u, isSpace c = true) (hv : ∀ c ∈ v, isSpace c = true) :
    ∃ w, w.length ≠ 1 ∧ Directive (body ++ printKind kind u ++ v) (body ++ u) w v [] ∧
      trimRight (body ++ u) = body ∧
      ∀ s group, Directive s (body ++ u) w v [] →
        normalizeLineInner s group = ⟨body, kind, group⟩ := by
  have htrim : trimRight (body ++ u) = body := by
    rw [trimRight_append hu, trimRight_of_not_endsInSpace hspace]
  cases kind with
  | normal => exact absurd rfl hkind
  | hidden =>
    refine ⟨jstr "hidden", by decide, ⟨by simp [printKind], by decide, hv, Or.inl rfl⟩, htrim, ?_⟩
    intro s group h
    rw [normalizeLineInner_of_hidden h, htrim, List.append_nil]
  | excluded =>
    refine ⟨jstr "excluded", by decide, ⟨by simp [printKind], by decide, hv, Or.inl rfl⟩, htrim, ?_⟩
    intro s group h
    rw [normalizeLineInner_of_excluded h, htrim, List.append_nil]

include hspace in
/-- Behind a text that does not end in white space, the kind is the only directive that is
recognised. -/
theorem normalizeLine_printKind {kind : LineKind} (hkind : kind ≠ .normal) {u v : JString}
    (hu : ∀ c ∈ u, isSpace c = true) (hv : ∀ c ∈ v, isSpace c = true) :
    normalizeLine (body ++ printKind kind u ++ v) = .ok ⟨body, kind, none⟩ := by
  obtain ⟨w, hw, h, -, hinner⟩ := directive_printKind hspace hkind hu hv
  rw [normalizeLine_of_length_ne_one h hw, hinner _ none h]

include hspace hdirective hterm in
/-- Without a kind directive there is no directive at all. -/
theorem not_directive_of_normal {lead w v tail : JString} (h : Directive body lead w v tail) :
    w ≠ jstr "excluded" ∧ w ≠ jstr "hidden" ∧ ∀ c, w ≠ [c] := by
  have heq := h.eq_of_not_endsInSpace hspace hterm
  refine ⟨?_, ?_, ?_⟩
  · rintro rfl
    exact hdirective (Or.inl ⟨lead, heq.symm⟩)
  · rintro rfl
    exact hdirective (Or.inr (Or.inl ⟨lead, heq.symm⟩))
  · rintro c rfl
    exact hdirective (Or.inr (Or.inr ⟨c, h.lowercase c (by simp), lead, heq.symm⟩))

include hspace hdirective hterm in
/-- The kind of a written line, when the group directive is gone. -/
theorem normalizeLineInner_print (kind : LineKind) {u v : JString}
    (hu : ∀ c ∈ u, isSpace c = true) (hv : ∀ c ∈ v, isSpace c = true)
    (hnormal : kind = .normal → v = []) (group : Option Group) :
    normalizeLineInner (body ++ printKind kind u ++ v) group = ⟨body, kind, group⟩ := by
  by_cases hkind : kind = .normal
  · rw [hnormal hkind, hkind]
    simp only [printKind, List.append_nil]
    apply normalizeLineInner_of_normal
    intro lead w v tail h
    have := not_directive_of_normal hspace hdirective hterm h
    exact ⟨this.1, this.2.1⟩
  · obtain ⟨w, -, h, -, hinner⟩ := directive_printKind hspace hkind hu hv
    exact hinner _ group h

include hspace hdirective hterm in
/-- The directives of a written line. -/
theorem normalizeLine_print (kind : LineKind) (group : Option Group)
    (hgroup : ∀ g ∈ group, 0 ≤ g.index ∧ g.index < 26) {u₁ u₂ v : JString}
    (hu₁ : ∀ c ∈ u₁, isSpace c = true) (hu₂ : ∀ c ∈ u₂, isSpace c = true)
    (hv : ∀ c ∈ v, isSpace c = true) (hnone : kind = .normal → group = none → v = []) :
    normalizeLine (body ++ printKind kind u₁ ++ printGroup group u₂ ++ v)
      = .ok ⟨body, kind, group⟩ := by
  cases group with
  | none =>
    rw [printGroup, List.append_nil]
    by_cases hkind : kind = .normal
    · rw [hnone hkind rfl, hkind]
      rw [normalizeLine_of_no_group, normalizeLineInner_print hspace hdirective hterm .normal hu₁
        (by simp) (fun _ => rfl)]
      intro lead c v' tail h
      simp only [printKind, List.append_nil] at h
      exact (not_directive_of_normal hspace hdirective hterm h).2.2 c rfl
    · exact normalizeLine_printKind hspace hkind hu₁ hv
  | some g =>
    obtain ⟨hlower, hletter⟩ := Group.letter_spec (hgroup g rfl).1 (hgroup g rfl).2
    have h : Directive (body ++ printKind kind u₁ ++ printGroup (some g) u₂ ++ v)
        (body ++ printKind kind u₁ ++ u₂) [g.letter] v [] :=
      ⟨by simp [printGroup], by simpa using hlower, hv, Or.inl rfl⟩
    -- the written kind does not end in white space, so only `u₂` goes with the group
    have htrim : trimRight (body ++ printKind kind u₁ ++ u₂) = body ++ printKind kind u₁ := by
      rw [trimRight_append hu₂]
      cases kind with
      | normal =>
        rw [printKind, List.append_nil]
        exact trimRight_of_not_endsInSpace hspace
      | hidden =>
        rw [printKind, ← List.append_assoc, trimRight_append_cons (by decide)]
        rfl
      | excluded =>
        rw [printKind, ← List.append_assoc, trimRight_append_cons (by decide)]
        rfl
    have hinner := normalizeLineInner_print hspace hdirective hterm kind hu₁ (v := [])
      (by simp) (fun _ => rfl) (some g)
    rw [normalizeLine_of_group h, htrim, hletter, hinner]

end RoundTrip

/-- **Parsing undoes printing** over the whole line format: any well-formed alternating nodes, any
kind, any of the 26 groups, any white space around the directives. -/
theorem parseLineTemplate_print (nodes : List LineNode) (kind : LineKind) (group : Option Group)
    (u₁ u₂ v : JString) (halt : Alternates nodes) (hwf : ∀ node ∈ nodes, node.WellFormed)
    (hspace : ¬ EndsInSpace (printNodes nodes)) (hdirective : ¬ EndsInDirective (printNodes nodes))
    (hgroup : ∀ g ∈ group, 0 ≤ g.index ∧ g.index < 26)
    (hu₁ : u₁ ≠ [] ∧ ∀ c ∈ u₁, isSpace c = true) (hu₂ : u₂ ≠ [] ∧ ∀ c ∈ u₂, isSpace c = true)
    (hv : ∀ c ∈ v, isSpace c = true) (hnone : kind = .normal → group = none → v = []) :
    parseLineTemplate (printNodes nodes ++ printKind kind u₁ ++ printGroup group u₂ ++ v)
      = .ok ⟨nodes, kind, group⟩ := by
  obtain ⟨line, hnodes, hprint, htext, htail⟩ := exists_gappedLine halt hwf
  -- neither do the gap markers have a line terminator
  have hterm : ∀ c ∈ printNodes nodes, isLineTerminator c = false := by
    intro c hc
    obtain ⟨node, hnode, hc⟩ := List.mem_flatMap.mp hc
    have hnode := hwf node hnode
    cases node with
    | text content => exact hnode.2 c hc
    | gap content =>
      simp only [LineNode.print, List.mem_append] at hc
      rcases hc with (hc | hc) | hc
      · simp only [gapMarker, List.mem_cons, List.not_mem_nil, or_false, or_self] at hc
        rw [hc]
        decide
      · exact hnode.2.2 c hc
      · simp only [gapMarker, List.mem_cons, List.not_mem_nil, or_false, or_self] at hc
        rw [hc]
        decide
  have hnormalize := normalizeLine_print hspace hdirective hterm kind group hgroup hu₁.2 hu₂.2 hv
    hnone
  apply parseLineTemplate_of_normalizeLine hnormalize
  rw [parseNormalizedLine_eq, ← hprint, gapSplit_print line htext htail, hnodes]

/-- `x_` `__i__` `__na__` with an excluded line for group B. -/
theorem parseLineTemplate_print_example :
    parseLineTemplate (jstr "x___i____na__; %excluded\t%b ")
      = .ok ⟨[.text (jstr "x_"), .gap (jstr "i"), .text [], .gap (jstr "na"), .text (jstr ";")],
          .excluded, some .B⟩ :=
  parseLineTemplate_print
    [.text (jstr "x_"), .gap (jstr "i"), .text [], .gap (jstr "na"), .text (jstr ";")]
    .excluded (some .B) (jstr " ") (jstr "\t") (jstr " ")
    (.cons _ _ (.cons _ _ (.text _)))
    (by
      intro node hnode
      simp only [List.mem_cons, List.not_mem_nil, or_false] at hnode
      rcases hnode with rfl | rfl | rfl | rfl | rfl <;>
        simp only [LineNode.WellFormed] <;> decide)
    (not_endsInSpace (c := chr ';') rfl (by decide))
    (not_endsInDirective_of_percent_notMem (by decide))
    (by simp [Group.B]) (by decide) (by decide) (by decide) (by simp)

/-! ### The order of the directives -/

/-- **The order of a line's directives does matter**, on every line: behind the kind, the group is
recognised; in front of the kind, the group is lost and its directive stays in the text. -/
theorem parseLineTemplate_swapped_ne {body : JString} (hspace : ¬ EndsInSpace body)
    (hdirective : ¬ EndsInDirective body) (hterm : ∀ c ∈ body, isLineTerminator c = false)
    {kind : LineKind} (hkind : kind ≠ .normal) {group : Group}
    (hgroup : 0 ≤ group.index ∧ group.index < 26) {u₁ u₂ v₁ v₂ : JString}
    (hu₁ : u₁ ≠ [] ∧ ∀ c ∈ u₁, isSpace c = true) (hu₂ : u₂ ≠ [] ∧ ∀ c ∈ u₂, isSpace c = true)
    (hv₂ : v₂ ≠ [] ∧ ∀ c ∈ v₂, isSpace c = true) :
    ∃ nodes nodes', parseNormalizedLine body = .ok nodes ∧
      parseNormalizedLine (body ++ v₁ ++ [chr '%', group.letter]) = .ok nodes' ∧
      parseLineTemplate (body ++ printKind kind u₁ ++ printGroup (some group) u₂)
        = .ok ⟨nodes, kind, some group⟩ ∧
      parseLineTemplate (body ++ printGroup (some group) v₁ ++ printKind kind v₂)
        = .ok ⟨nodes', kind, none⟩ ∧
      parseLineTemplate (body ++ printGroup (some group) v₁ ++ printKind kind v₂)
        ≠ parseLineTemplate (body ++ printKind kind u₁ ++ printGroup (some group) u₂) := by
  have hletter := (Group.letter_spec hgroup.1 hgroup.2).1
  have hbody := parseNormalizedLine_eq body
  have hwith := parseNormalizedLine_eq (body ++ v₁ ++ [chr '%', group.letter])
  have hkindGroup : parseLineTemplate (body ++ printKind kind u₁ ++ printGroup (some group) u₂)
      = .ok ⟨(gapSplit body).nodes, kind, some group⟩ := by
    have hnormalize := normalizeLine_print hspace hdirective hterm kind (some group)
      (by rintro g ⟨⟩; exact hgroup) hu₁.2 hu₂.2 (v := []) (by simp) (by simp)
    rw [List.append_nil] at hnormalize
    exact parseLineTemplate_of_normalizeLine hnormalize hbody
  have hgroupKind : parseLineTemplate (body ++ printGroup (some group) v₁ ++ printKind kind v₂)
      = .ok ⟨(gapSplit (body ++ v₁ ++ [chr '%', group.letter])).nodes, kind, none⟩ := by
    -- what is left of the line ends in the letter of the group
    have hlast : ¬ EndsInSpace (body ++ printGroup (some group) v₁) := by
      rintro ⟨c, hc, hcspace⟩
      have hform : body ++ printGroup (some group) v₁ = (body ++ v₁ ++ [chr '%']) ++ [group.letter]
          := by simp [printGroup]
      rw [hform, List.getLast?_concat, Option.mem_some_iff] at hc
      rw [← hc, not_isSpace_of_isLowercase hletter] at hcspace
      exact Bool.false_ne_true hcspace
    have hnormalize := normalizeLine_printKind hlast hkind hv₂.2 (v := []) (by simp)
    have hform : body ++ printGroup (some group) v₁ = body ++ v₁ ++ [chr '%', group.letter] := by
      simp [printGroup]
    rw [List.append_nil] at hnormalize
    rw [← hform] at hwith ⊢
    exact parseLineTemplate_of_normalizeLine hnormalize hwith
  refine ⟨_, _, hbody, hwith, hkindGroup, hgroupKind, ?_⟩
  rw [hkindGroup, hgroupKind]
  intro heq
  cases congrArg LineTemplate.group (Except.ok.inj heq)

/-- `x;` with an excluded line for group A. -/
theorem parseLineTemplate_swapped_ne_example :
    parseLineTemplate (jstr "x; %a %excluded") ≠ parseLineTemplate (jstr "x; %excluded %a") := by
  have hswapped := @parseLineTemplate_swapped_ne (jstr "x;")
    (not_endsInSpace (c := chr ';') rfl (by decide))
    (not_endsInDirective_of_percent_notMem (by decide))
    (by decide) .excluded (by decide) .A (by simp [Group.A]) (jstr " ") (jstr " ") (jstr " ")
    (jstr " ") (by decide) (by decide) (by decide)
  obtain ⟨-, -, -, -, -, -, hne⟩ := hswapped
  exact hne

/-- The line `x; %a %excluded` loses its group. -/
theorem group_lost_in_front_of_kind :
    ¬ ∀ (body : JString) (kind : LineKind) (group : Group) (u₁ u₂ : JString),
      ¬ EndsInSpace body → ¬ EndsInDirective body → (∀ c ∈ body, isLineTerminator c = false) →
      kind ≠ .normal → 0 ≤ group.index ∧ group.index < 26 →
      (u₁ ≠ [] ∧ ∀ c ∈ u₁, isSpace c = true) → (u₂ ≠ [] ∧ ∀ c ∈ u₂, isSpace c = true) →
      ∃ nodes, parseNormalizedLine body = .ok nodes ∧
        parseLineTemplate (body ++ printKind kind u₁ ++ printGroup (some group) u₂)
          = .ok ⟨nodes, kind, some group⟩ ∧
        parseLineTemplate (body ++ printGroup (some group) u₁ ++ printKind kind u₂)
          = .ok ⟨nodes, kind, some group⟩ := by
  intro h
  obtain ⟨nodes, -, -, hswapped⟩ := h (jstr "x;") .excluded .A (jstr " ") (jstr " ")
    (not_endsInSpace (c := chr ';') rfl (by decide))
    (not_endsInDirective_of_percent_notMem (by decide))
    (by decide) (by decide) (by simp [Group.A]) (by decide) (by decide)
  have hparsed : parseLineTemplate (jstr "x; %a %excluded")
      = .ok ⟨[.text (jstr "x; %a")], .excluded, none⟩ := by decide +kernel
  have hgroup := congrArg LineTemplate.group (Except.ok.inj (hparsed.symm.trans hswapped))
  cases hgroup

/-! ### The leftmost gaps -/

theorem alternates_nodes (line : GappedLine) : Alternates line.nodes := by
  obtain ⟨text, tail⟩ := line
  induction tail generalizing text with
  | nil => exact .text text
  | cons p tail ih => exact .cons text p.1.content (ih p.2)

theorem printNodes_nodes (line : GappedLine) : printNodes line.nodes = line.print := by
  obtain ⟨text, tail⟩ := line
  induction tail generalizing text with
  | nil => simp [printNodes, GappedLine.nodes, GappedLine.print, LineNode.print]
  | cons p tail ih =>
    have hnodes : (GappedLine.mk text (p :: tail)).nodes
        = .text text :: .gap p.1.content :: (GappedLine.mk p.2 tail).nodes := rfl
    rw [hnodes, printNodes, List.flatMap_cons, List.flatMap_cons, ← printNodes, ih]
    simp [GappedLine.print, printGap, LineNode.print]

/-- Where a gap is written, a gap is read. -/
theorem gapAt_ne_none_of_leading {g s : JString} (hg : g ≠ []) (hunderscore : chr '_' ∉ g)
    (h : gapMarker ++ g ++ gapMarker <+: s) : gapAt s ≠ none := by
  obtain ⟨rest, rfl⟩ := h
  rw [gapAt_printGap ⟨g, hg, hunderscore⟩ rest]
  simp

/-- A gap that starts in front of the end of a text would have been cut out. -/
theorem length_le_of_gap {s : JString} :
    ∀ (before : List LineNode) {after : List LineNode} {t t₁ g : JString},
    (gapSplit s).nodes = before ++ .text t :: after → g ≠ [] → chr '_' ∉ g →
    t₁ ++ (gapMarker ++ g ++ gapMarker) <+: t ++ printNodes after → t.length ≤ t₁.length := by
  induction s using gapSplit_induction with
  | gap s g' rest hgap ih =>
    intro before after t t₁ g hnodes hg hunderscore hprefix
    have hcut : (gapSplit s).nodes = .text [] :: .gap g'.content :: (gapSplit rest).nodes := by
      rw [gapSplit_of_gapAt hgap]
      rfl
    rw [hcut] at hnodes
    cases before with
    | nil =>
      obtain ⟨rfl, -⟩ : [] = t ∧ _ := by simpa using hnodes
      exact Nat.zero_le _
    | cons first before =>
      cases before with
      | nil => simp at hnodes
      | cons second before =>
        have hrest : (gapSplit rest).nodes = before ++ .text t :: after := by
          simp only [List.cons_append, List.cons.injEq] at hnodes
          exact hnodes.2.2
        exact ih before hrest hg hunderscore hprefix
  | nil =>
    intro before after t t₁ g hnodes hg hunderscore hprefix
    rw [gapSplit_nil] at hnodes
    cases before with
    | nil =>
      obtain ⟨rfl, -⟩ : [] = t ∧ _ := by simpa [GappedLine.nodes] using hnodes
      exact Nat.zero_le _
    | cons first before => simp [GappedLine.nodes] at hnodes
  | text c cs hgap ih =>
    intro before after t t₁ g hnodes hg hunderscore hprefix
    obtain ⟨nodes, hcs⟩ : ∃ nodes, (gapSplit cs).nodes = .text (gapSplit cs).text :: nodes :=
      ⟨_, rfl⟩
    have hcut : (gapSplit (c :: cs)).nodes = .text (c :: (gapSplit cs).text) :: nodes := by
      rw [gapSplit_cons_of_none hgap, GappedLine.nodes]
      rw [GappedLine.nodes] at hcs
      simpa using hcs
    rw [hcut] at hnodes
    cases before with
    | nil =>
      obtain ⟨rfl, rfl⟩ : c :: (gapSplit cs).text = t ∧ nodes = after := by simpa using hnodes
      cases t₁ with
      | nil =>
        -- no gap starts at `c`
        have hline : c :: (gapSplit cs).text ++ printNodes nodes = c :: cs := by
          have hprint := (printNodes_nodes (gapSplit cs)).trans (print_gapSplit cs)
          rw [hcs, printNodes, List.flatMap_cons, ← printNodes] at hprint
          rw [List.cons_append]
          exact congrArg _ hprint
        rw [hline] at hprefix
        exact absurd hgap (gapAt_ne_none_of_leading hg hunderscore hprefix)
      | cons c' t₁ =>
        have hprefix' : t₁ ++ (gapMarker ++ g ++ gapMarker)
            <+: (gapSplit cs).text ++ printNodes nodes := by
          rw [List.cons_append, List.cons_append, List.cons_prefix_cons] at hprefix
          exact hprefix.2
        exact Nat.succ_le_succ (ih [] hcs hg hunderscore hprefix')
    | cons first before =>
      have hrest : nodes = before ++ .text t :: after := by
        simp only [List.cons_append, List.cons.injEq] at hnodes
        exact hnodes.2
      exact ih (.text (gapSplit cs).text :: before) (by rw [hcs, hrest]; rfl) hg hunderscore
        hprefix

/-- **`parseNormalizedLine` is the leftmost decomposition without a loss**: it never throws, its
nodes alternate text, gap, text, …, text and are written as the line was, gaps are non-empty and
free of underscores, and no gap starts inside a text, whatever part of it stands behind the
text. -/
theorem parseNormalizedLine_spec (lineStr : JString) :
    ∃ nodes, parseNormalizedLine lineStr = .ok nodes ∧ Alternates nodes ∧
      printNodes nodes = lineStr ∧
      (∀ content, .gap content ∈ nodes → content ≠ [] ∧ chr '_' ∉ content) ∧
      ∀ before t after, nodes = before ++ .text t :: after →
        ∀ t₁ g, g ≠ [] → chr '_' ∉ g →
          t₁ ++ (gapMarker ++ g ++ gapMarker) <+: t ++ printNodes after → t.length ≤ t₁.length := by
  refine ⟨(gapSplit lineStr).nodes, parseNormalizedLine_eq lineStr, alternates_nodes _,
    (printNodes_nodes _).trans (print_gapSplit lineStr), ?_, ?_⟩
  · intro content hcontent
    simp only [GappedLine.nodes, List.mem_cons, reduceCtorEq, false_or, List.mem_flatMap,
      LineNode.gap.injEq, List.not_mem_nil, or_false] at hcontent
    obtain ⟨⟨g, text⟩, -, rfl⟩ := hcontent
    exact ⟨g.ne_nil, g.underscore_not_mem⟩
  · intro before t after hnodes t₁ g hg hunderscore hprefix
    exact length_le_of_gap before hnodes hg hunderscore hprefix

end ExamGeneratorNg
