import ExamGeneratorNg.Equiv.ProgramTemplateRealization

/-!
# Which answers are hidden from students

An answer is meant to be hidden by writing it between two gap markers.  The gap pattern takes an
answer without an underscore only, so an answer with an inner underscore stays in the text
(`gapSplit_answerLine_of_mem`) and is shown.  `studentLine_eq_iff` says for which pairs of answers
of the same length a student cannot tell which one was written.
-/

namespace ExamGeneratorNg

/-- An answer: non-empty, without a gap marker in it, and with no underscore at either end. -/
structure Answer where
  content : JString
  ne_nil : content ≠ []
  no_marker : ¬ gapMarker <:+: content
  head_ne : content.head? ≠ some (chr '_')
  last_ne : content.getLast? ≠ some (chr '_')

/-- The line with the answer between gap markers. -/
def answerLine (before answer after : JString) : JString :=
  before ++ gapMarker ++ answer ++ gapMarker ++ after

/-- What a student of the group gets of a line. -/
def studentLine (line : JString) (group : Group) : Except JavaException (Option JString) := do
  let lineTemplate ← parseLineTemplate line
  pure (realizeLineTemplate lineTemplate .student group)

/-! ### Where an answer line has gaps -/

/-- A gap starts with a marker. -/
theorem gapAt_eq_none_of_not_prefix {s : JString} (h : ¬ gapMarker <+: s) : gapAt s = none := by
  cases hgap : gapAt s with
  | none => rfl
  | some p =>
    obtain ⟨g, rest⟩ := p
    refine absurd ⟨g.content ++ gapMarker ++ rest, ?_⟩ h
    rw [eq_of_gapAt hgap]
    simp

theorem marker_prefix_iff {s : JString} :
    gapMarker <+: s ↔ s[0]? = some (chr '_') ∧ s[1]? = some (chr '_') := by
  match s with
  | [] => simp [gapMarker]
  | [a] => simp [gapMarker]
  | a :: b :: s => simp [gapMarker, eq_comm]

theorem getElem?_ne_of_not_mem {s : JString} (h : chr '_' ∉ s) (i : ℕ) :
    s[i]? ≠ some (chr '_') := fun hi => h (List.mem_of_getElem? hi)

namespace Answer

variable (answer : Answer)

theorem not_adjacent (i : ℕ) : ¬(answer.content[i]? = some (chr '_') ∧
    answer.content[i + 1]? = some (chr '_')) := by
  rintro ⟨h0, h1⟩
  apply answer.no_marker
  refine ⟨answer.content.take i, answer.content.drop (i + 2), ?_⟩
  obtain ⟨hi, h0⟩ := List.getElem?_eq_some_iff.mp h0
  obtain ⟨hi1, h1⟩ := List.getElem?_eq_some_iff.mp h1
  have hdrop : answer.content.drop i = gapMarker ++ answer.content.drop (i + 2) := by
    rw [List.drop_eq_getElem_cons hi, List.drop_eq_getElem_cons hi1, h0, h1]
    rfl
  rw [List.append_assoc, ← hdrop, List.take_append_drop]

/-- The only markers in an answer line are the two around the answer. -/
theorem marker_positions {before after : JString} (hbefore : chr '_' ∉ before)
    (hafter : chr '_' ∉ after) {i : ℕ}
    (h : gapMarker <+: (answerLine before answer.content after).drop i) :
    i = before.length ∨ i = before.length + 2 + answer.content.length := by
  have hpos : 0 < answer.content.length := List.length_pos_iff.mpr answer.ne_nil
  have hhead : answer.content[0]? ≠ some (chr '_') := by
    rw [← List.head?_eq_getElem?]
    exact answer.head_ne
  have hlast : answer.content[answer.content.length - 1]? ≠ some (chr '_') := by
    rw [← List.getLast?_eq_getElem?]
    exact answer.last_ne
  -- the characters of the line, by the piece they stand in
  have hchar : ∀ j, (answerLine before answer.content after)[j]? = some (chr '_') →
      (before.length ≤ j ∧ j < before.length + 2) ∨
      (before.length + 2 ≤ j ∧ j < before.length + 2 + answer.content.length ∧
        answer.content[j - (before.length + 2)]? = some (chr '_')) ∨
      (before.length + 2 + answer.content.length ≤ j ∧
        j < before.length + 2 + answer.content.length + 2) := by
    intro j hj
    unfold answerLine at hj
    simp only [List.getElem?_append, List.length_append] at hj
    have hmarker : gapMarker.length = 2 := rfl
    simp only [hmarker] at hj
    split_ifs at hj with h1 h2 h3 h4
    · exact absurd hj (getElem?_ne_of_not_mem hbefore _)
    · omega
    · exact Or.inr (Or.inl ⟨by omega, by omega, hj⟩)
    · omega
    · exact absurd hj (getElem?_ne_of_not_mem hafter _)
  rw [marker_prefix_iff, List.getElem?_drop, List.getElem?_drop, Nat.add_zero] at h
  have h0 := hchar i h.1
  have h1 := hchar (i + 1) h.2
  rcases h0 with h0 | ⟨h0, h0', hc0⟩ | h0
  · by_cases hi : i = before.length
    · exact Or.inl hi
    · -- the second underscore of the first marker, and the first character of the answer
      exfalso
      rcases h1 with h1 | ⟨-, -, hc1⟩ | h1
      · omega
      · have : i + 1 - (before.length + 2) = 0 := by omega
        rw [this] at hc1
        exact hhead hc1
      · omega
  · exfalso
    rcases h1 with h1 | ⟨-, -, hc1⟩ | h1
    · omega
    · have : i + 1 - (before.length + 2) = i - (before.length + 2) + 1 := by omega
      rw [this] at hc1
      exact answer.not_adjacent _ ⟨hc0, hc1⟩
    · have : i - (before.length + 2) = answer.content.length - 1 := by omega
      rw [this] at hc0
      exact hlast hc0
  · omega

/-- An answer with an underscore is not cut out: the line has no gap at all. -/
theorem gapSplit_answerLine_of_mem {before after : JString} (hbefore : chr '_' ∉ before)
    (hafter : chr '_' ∉ after) (hanswer : chr '_' ∈ answer.content) :
    gapSplit (answerLine before answer.content after)
      = ⟨answerLine before answer.content after, []⟩ := by
  apply gapSplit_eq_text
  intro t rest hline
  by_cases hmarker : gapMarker <+: rest
  · have hdrop : rest = (answerLine before answer.content after).drop t.length := by
      rw [hline, List.drop_left]
    rw [hdrop] at hmarker ⊢
    rcases answer.marker_positions hbefore hafter hmarker with hi | hi
    · -- behind the first marker, the next underscore is the first one of the answer
      obtain ⟨u, w, hu, hu'⟩ := List.eq_append_cons_of_mem hanswer
      have hform : (answerLine before answer.content after).drop t.length
          = gapMarker ++ u ++ chr '_' :: (w ++ gapMarker ++ after) := by
        rw [hi, answerLine, List.append_assoc, List.append_assoc, List.append_assoc,
          List.drop_left, hu]
        simp
      rw [hform]
      apply gapAt_marker_of_ne hu'
      rw [marker_prefix_iff]
      rintro ⟨-, hw⟩
      cases w with
      | nil => exact answer.last_ne (by rw [hu, List.getLast?_concat])
      | cons c w =>
        obtain rfl : c = chr '_' := by simpa using hw
        exact answer.no_marker ⟨u, w, by rw [hu]; simp [gapMarker]⟩
    · have hform : (answerLine before answer.content after).drop t.length = gapMarker ++ after := by
        have hlength : t.length = (before ++ gapMarker ++ answer.content).length := by
          rw [hi]
          simp [gapMarker]
          omega
        rw [hlength, answerLine, List.append_assoc _ gapMarker after, List.drop_left]
      rw [hform]
      exact gapAt_marker_of_not_mem hafter
  · exact gapAt_eq_none_of_not_prefix hmarker

/-- An answer without an underscore is the only gap of its line. -/
theorem gapSplit_answerLine_of_not_mem {before after : JString} (hbefore : chr '_' ∉ before)
    (hafter : chr '_' ∉ after) (hanswer : chr '_' ∉ answer.content) :
    gapSplit (answerLine before answer.content after)
      = ⟨before, [(⟨answer.content, answer.ne_nil, hanswer⟩, after)]⟩ := by
  have hnomarker : ∀ {s : JString}, chr '_' ∉ s → ¬ gapMarker <:+: s := fun hs h =>
    hs (h.subset (by simp [gapMarker]))
  have hprint := gapSplit_print ⟨before, [(⟨answer.content, answer.ne_nil, hanswer⟩, after)]⟩
    (hnomarker hbefore) (by simpa using hnomarker hafter)
  rw [← hprint]
  congr 1
  simp [answerLine, GappedLine.print, printGap]

end Answer

/-! ### What a student gets -/

/-- The text a student gets for an answer line without directives. -/
def studentText (before answer after : JString) : JString :=
  if chr '_' ∈ answer then answerLine before answer after
  else before ++ List.replicate answer.length (chr '_') ++ after

theorem realize_answerLine (answer : Answer) {before after : JString} (hbefore : chr '_' ∉ before)
    (hafter : chr '_' ∉ after) :
    (gapSplit (answerLine before answer.content after)).nodes.flatMap (realizeNode · .student)
      = studentText before answer.content after := by
  unfold studentText
  by_cases hanswer : chr '_' ∈ answer.content
  · rw [if_pos hanswer, answer.gapSplit_answerLine_of_mem hbefore hafter hanswer]
    simp [GappedLine.nodes, realizeNode]
  · rw [if_neg hanswer, answer.gapSplit_answerLine_of_not_mem hbefore hafter hanswer]
    simp [GappedLine.nodes, realizeNode]

/-- The directives behind the answer decide who gets the line, and the answer's underscores what
it looks like. -/
theorem studentLine_eq (answer : Answer) {before after : JString} (hbefore : chr '_' ∉ before)
    (hafter : chr '_' ∉ after) {normalized : NormalizedLine}
    (hnormalized : normalizeLine after = .ok normalized) (group : Group) :
    studentLine (answerLine before answer.content after) group
      = .ok (if (normalized.group = none ∨ normalized.group = some group) ∧
            normalized.kind ≠ .hidden
          then some (studentText before answer.content normalized.content) else none) := by
  have hcontent : chr '_' ∉ normalized.content := fun h =>
    hafter (normalizeLine_subset hnormalized h)
  have hline : answerLine before answer.content after
      = (before ++ gapMarker ++ answer.content ++ [chr '_']) ++ chr '_' :: after := by
    simp [answerLine, gapMarker]
  have hnormalizeLine : normalizeLine (answerLine before answer.content after)
      = .ok ⟨answerLine before answer.content normalized.content, normalized.kind,
          normalized.group⟩ := by
    rw [hline, normalizeLine_append, hnormalized]
    simp [Except.map, NormalizedLine.prepend, answerLine, gapMarker]
  unfold studentLine parseLineTemplate
  rw [hnormalizeLine]
  show ((parseNormalizedLine (answerLine before answer.content normalized.content) >>= _) >>= _) = _
  rw [parseNormalizedLine_eq]
  show Except.ok (realizeLineTemplate ⟨_, normalized.kind, normalized.group⟩ .student group) = _
  rw [realizeLineTemplate_eq]
  simp only [LineTemplate.MeantFor, ProgramVariant.leftOut, realizeLineTemplateNodes,
    realize_answerLine answer hbefore hcontent]

/-- **Which answers are hidden**: of two answers of the same length, a student of any group gets
the same line if and only if the answers are equal, neither has an underscore, or the line is not
shown to students at all. -/
theorem studentLine_eq_iff (answer₁ answer₂ : Answer)
    (hlength : answer₁.content.length = answer₂.content.length) {before after : JString}
    (hbefore : chr '_' ∉ before) (hafter : chr '_' ∉ after) :
    (∀ group, studentLine (answerLine before answer₁.content after) group
      = studentLine (answerLine before answer₂.content after) group) ↔
    answer₁.content = answer₂.content ∨
      (chr '_' ∉ answer₁.content ∧ chr '_' ∉ answer₂.content) ∨
      ∃ normalized, normalizeLine after = .ok normalized ∧ normalized.kind = .hidden := by
  obtain ⟨normalized, hnormalized⟩ := normalizeLine_ok after
  simp only [studentLine_eq _ hbefore hafter hnormalized, Except.ok.injEq]
  constructor
  · intro h
    by_cases hkind : normalized.kind = .hidden
    · exact Or.inr (Or.inr ⟨normalized, hnormalized, hkind⟩)
    -- a group that gets the line
    have hgroup : normalized.group = none ∨
        normalized.group = some (normalized.group.getD .A) := by
      cases normalized.group with
      | none => exact Or.inl rfl
      | some group => exact Or.inr rfl
    have htext := h (normalized.group.getD .A)
    rw [if_pos ⟨hgroup, hkind⟩, if_pos ⟨hgroup, hkind⟩, Option.some.injEq] at htext
    unfold studentText at htext
    by_cases h₁ : chr '_' ∈ answer₁.content
    · left
      by_cases h₂ : chr '_' ∈ answer₂.content
      · rw [if_pos h₁, if_pos h₂] at htext
        simpa [answerLine] using htext
      · rw [if_pos h₁, if_neg h₂] at htext
        have := congrArg List.length htext
        simp [answerLine, gapMarker] at this
        omega
    · by_cases h₂ : chr '_' ∈ answer₂.content
      · rw [if_neg h₁, if_pos h₂] at htext
        have := congrArg List.length htext
        simp [answerLine, gapMarker] at this
        omega
      · exact Or.inr (Or.inl ⟨h₁, h₂⟩)
  · rintro (heq | ⟨h₁, h₂⟩ | ⟨normalized', hnormalized', hkind⟩) group
    · rw [heq]
    · unfold studentText
      rw [if_neg h₁, if_neg h₂, hlength]
    · obtain rfl : normalized = normalized' := by
        rw [hnormalized] at hnormalized'
        exact Except.ok.inj hnormalized'
      rw [if_neg fun h => h.2 hkind, if_neg fun h => h.2 hkind]

/-- An identifier with an inner underscore is shown to the students as it is. -/
theorem studentLine_inner_underscore_shown :
    ¬ ∀ (answer₁ answer₂ : Answer) (before after : JString) (group : Group),
      answer₁.content.length = answer₂.content.length → chr '_' ∉ before → chr '_' ∉ after →
      studentLine (answerLine before answer₁.content after) group
        = studentLine (answerLine before answer₂.content after) group := by
  intro h
  have hline := h ⟨jstr "a_b", by decide, by decide, by decide, by decide⟩
    ⟨jstr "abc", by decide, by decide, by decide, by decide⟩ (jstr "int ") (jstr ";") .A
    rfl (by decide) (by decide)
  have hshown : studentLine (jstr "int __a_b__;") .A = .ok (some (jstr "int __a_b__;")) := by
    decide
  have hhidden : studentLine (jstr "int __abc__;") .A = .ok (some (jstr "int ___;")) := by
    decide
  have hne := hshown.symm.trans (hline.trans hhidden)
  revert hne
  decide

/-- Two answers without an underscore, in a line for one group only. -/
theorem studentLine_eq_iff_example :
    studentLine (answerLine (jstr "int ") (jstr "cnt") (jstr "; %a")) .A
      = studentLine (answerLine (jstr "int ") (jstr "sum") (jstr "; %a")) .A :=
  (studentLine_eq_iff ⟨jstr "cnt", by decide, by decide, by decide, by decide⟩
    ⟨jstr "sum", by decide, by decide, by decide, by decide⟩ rfl (by decide) (by decide)).mpr
    (Or.inr (Or.inl ⟨by decide, by decide⟩)) .A

end ExamGeneratorNg
