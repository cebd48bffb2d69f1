import ExamGeneratorNg.Equiv.LineTemplateParsing
import ExamGeneratorNg.ExamTemplateRealization
import ExamGeneratorNg.ProgramTemplateRealization

/-!
# Correctness of the realizations of a program

What a student or a teacher sees of a program are the same lines, the *visible* ones of the group
(`realizeProgramTemplate_lines`); the compiler gets the *compiled* ones, realized as for the
teacher.  `views_agree` puts the three side by side.

What a student sees depends on the shape of the visible lines only: on their texts and on the
lengths of their gaps (`student_lines_eq_of_sameShape`).
-/

namespace ExamGeneratorNg

/-! ### The lines of a view -/

/-- The line is meant for the group. -/
def LineTemplate.MeantFor (line : LineTemplate) (group : Group) : Prop :=
  line.group = none ∨ line.group = some group

instance (line : LineTemplate) (group : Group) : Decidable (line.MeantFor group) :=
  inferInstanceAs (Decidable (_ ∨ _))

/-- The kind of the lines that are left out for the variant. -/
def ProgramVariant.leftOut : ProgramVariant → LineKind
  | student => .hidden
  | teacher => .hidden
  | compiler => .excluded

/-- The lines of a program that are realized for the variant and the group. -/
def ProgramTemplate.realizedLines (programTemplate : ProgramTemplate) (variant : ProgramVariant)
    (group : Group) : List LineTemplate :=
  programTemplate.lineTemplates.filter fun line =>
    line.MeantFor group ∧ line.kind ≠ variant.leftOut

/-- The lines of a program that are shown in the exams of the group. -/
def ProgramTemplate.visibleLines (programTemplate : ProgramTemplate) (group : Group) :
    List LineTemplate :=
  programTemplate.lineTemplates.filter fun line => line.MeantFor group ∧ line.kind ≠ .hidden

theorem realizeLineTemplate_eq (line : LineTemplate) (variant : ProgramVariant) (group : Group) :
    realizeLineTemplate line variant group
      = if line.MeantFor group ∧ line.kind ≠ variant.leftOut
        then some (realizeLineTemplateNodes line variant) else none := by
  unfold realizeLineTemplate LineTemplate.MeantFor
  by_cases hgroup : line.group = none ∨ line.group = some group
  · rw [if_pos hgroup]
    unfold realizeLineTemplateInner
    cases hkind : line.kind <;> cases variant <;> simp [hgroup, ProgramVariant.leftOut]
  · rw [if_neg hgroup, if_neg fun h => hgroup h.1]

/-- The realized lines of a program, each with the line it comes from. -/
def realizedFrom (programTemplate : ProgramTemplate) (variant : ProgramVariant) (group : Group) :
    List (LineTemplate × JString) :=
  programTemplate.lineTemplates.filterMap fun line =>
    (realizeLineTemplate line variant group).map (line, ·)

theorem realizedFrom_eq (programTemplate : ProgramTemplate) (variant : ProgramVariant)
    (group : Group) : realizedFrom programTemplate variant group
      = (programTemplate.realizedLines variant group).map fun line =>
          (line, realizeLineTemplateNodes line variant) := by
  unfold realizedFrom ProgramTemplate.realizedLines
  induction programTemplate.lineTemplates with
  | nil => rfl
  | cons line lines ih =>
    rw [List.filterMap_cons, realizeLineTemplate_eq, ih]
    by_cases hline : line.MeantFor group ∧ line.kind ≠ variant.leftOut
    · rw [if_pos hline, List.filter_cons_of_pos (by simpa using hline)]
      rfl
    · rw [if_neg hline, List.filter_cons_of_neg (by simpa using hline)]
      rfl

theorem map_snd_realizedFrom (programTemplate : ProgramTemplate) (variant : ProgramVariant)
    (group : Group) : (realizedFrom programTemplate variant group).map Prod.snd
      = (realizeProgramTemplate programTemplate variant group).lines := by
  rw [realizedFrom, List.map_filterMap, realizeProgramTemplate]
  congr 1
  ext1 line
  cases realizeLineTemplate line variant group <;> rfl

/-- **The lines of a view** are its realized lines, in order. -/
theorem realizeProgramTemplate_lines (programTemplate : ProgramTemplate)
    (variant : ProgramVariant) (group : Group) :
    (realizeProgramTemplate programTemplate variant group).lines
      = (programTemplate.realizedLines variant group).map (realizeLineTemplateNodes · variant) := by
  rw [← map_snd_realizedFrom, realizedFrom_eq, List.map_map]
  rfl

theorem student_lines (programTemplate : ProgramTemplate) (group : Group) :
    (realizeProgramTemplate programTemplate .student group).lines
      = (programTemplate.visibleLines group).map (realizeLineTemplateNodes · .student) :=
  realizeProgramTemplate_lines programTemplate .student group

theorem teacher_lines (programTemplate : ProgramTemplate) (group : Group) :
    (realizeProgramTemplate programTemplate .teacher group).lines
      = (programTemplate.visibleLines group).map (realizeLineTemplateNodes · .teacher) :=
  realizeProgramTemplate_lines programTemplate .teacher group

/-! ### Blanked gaps -/

/-- Which positions of the realized nodes lie inside a gap. -/
def gapMask (nodes : List LineNode) : List Bool :=
  nodes.flatMap fun
    | .text content => List.replicate content.length false
    | .gap content => List.replicate content.length true

/-- `blanked` is `full` with an underscore at every position inside a gap. -/
structure BlanksGaps (nodes : List LineNode) (blanked full : JString) : Prop where
  length_full : full.length = (gapMask nodes).length
  length_blanked : blanked.length = (gapMask nodes).length
  outside : ∀ j : ℕ, (gapMask nodes)[j]? = some false → blanked[j]? = full[j]?
  inside : ∀ j : ℕ, (gapMask nodes)[j]? = some true → blanked[j]? = some (chr '_')

theorem BlanksGaps.append {nodes₁ nodes₂ : List LineNode} {s₁ s₂ r₁ r₂ : JString}
    (h₁ : BlanksGaps nodes₁ s₁ r₁) (h₂ : BlanksGaps nodes₂ s₂ r₂) :
    BlanksGaps (nodes₁ ++ nodes₂) (s₁ ++ s₂) (r₁ ++ r₂) := by
  have hmask : gapMask (nodes₁ ++ nodes₂) = gapMask nodes₁ ++ gapMask nodes₂ :=
    List.flatMap_append
  have hs := h₁.length_blanked
  have hr := h₁.length_full
  refine ⟨?_, ?_, ?_, ?_⟩
  · rw [hmask, List.length_append, List.length_append, h₁.length_full, h₂.length_full]
  · rw [hmask, List.length_append, List.length_append, h₁.length_blanked, h₂.length_blanked]
  · -- a position lies in the first or in the second part of all three lists
    intro j hj
    rw [hmask, List.getElem?_append] at hj
    rw [List.getElem?_append, List.getElem?_append, hs, hr]
    split at hj
    · next hlt => rw [if_pos hlt, if_pos hlt, h₁.outside j hj]
    · next hlt => rw [if_neg hlt, if_neg hlt, h₂.outside _ hj]
  · intro j hj
    rw [hmask, List.getElem?_append] at hj
    rw [List.getElem?_append, hs]
    split at hj
    · next hlt => rw [if_pos hlt, h₁.inside j hj]
    · next hlt => rw [if_neg hlt, h₂.inside _ hj]

theorem blanksGaps_node (node : LineNode) :
    BlanksGaps [node] (realizeNode node .student) (realizeNode node .teacher) := by
  cases node with
  | text content =>
    refine ⟨by simp [gapMask, realizeNode], by simp [gapMask, realizeNode], fun j _ => rfl, ?_⟩
    intro j hj
    simp [gapMask, List.getElem?_replicate] at hj
  | gap content =>
    refine ⟨by simp [gapMask, realizeNode], by simp [gapMask, realizeNode], ?_, ?_⟩
    · intro j hj
      simp [gapMask, List.getElem?_replicate] at hj
    · intro j hj
      have hlt : j < content.length := by
        by_contra hge
        simp [gapMask, hge] at hj
      simp [realizeNode, hlt]

/-- **A student's line is the teacher's line with the gaps blanked.** -/
theorem blanksGaps_realizeLineTemplateNodes (line : LineTemplate) :
    BlanksGaps line.nodes (realizeLineTemplateNodes line .student)
      (realizeLineTemplateNodes line .teacher) := by
  unfold realizeLineTemplateNodes
  induction line.nodes with
  | nil => exact ⟨rfl, rfl, by simp [gapMask], by simp [gapMask]⟩
  | cons node nodes ih =>
    rw [List.flatMap_cons, List.flatMap_cons]
    exact (blanksGaps_node node).append ih

theorem length_realizeLineTemplateNodes (line : LineTemplate) :
    (realizeLineTemplateNodes line .student).length
      = (realizeLineTemplateNodes line .teacher).length := by
  have h := blanksGaps_realizeLineTemplateNodes line
  rw [h.length_blanked, h.length_full]

/-! ### Code placeholders -/

/-- The text fits into the box of the placeholder. -/
def MatrixPlaceholder.Fits (placeholder : MatrixPlaceholder) (str : LineString) : Prop :=
  str.lines.length ≤ placeholder.height ∧ ∀ line ∈ str.lines, line.length ≤ placeholder.width

/-- Every line fits into the width of the placeholder. -/
def MatrixPlaceholder.WideEnough (placeholder : MatrixPlaceholder) (lines : List JString) : Prop :=
  ∀ line ∈ lines, line.length ≤ placeholder.width

/-- The lines with empty ones behind them up to the height of the placeholder. -/
def MatrixPlaceholder.pad (placeholder : MatrixPlaceholder) (lines : List JString) :
    List JString := lines ++ List.replicate (placeholder.height - lines.length) []

theorem fits_iff {placeholder : MatrixPlaceholder} {lines : List JString} :
    placeholder.Fits ⟨lines⟩ ↔
      lines.length ≤ placeholder.height ∧ placeholder.WideEnough lines := Iff.rfl

theorem longestLineLength_le {str : LineString} {n : ℕ} :
    str.longestLineLength ≤ n ↔ ∀ line ∈ str.lines, line.length ≤ n := by
  obtain ⟨lines⟩ := str
  unfold LineString.longestLineLength
  induction lines with
  | nil => simp
  | cons line lines ih =>
    rw [List.map_cons, List.foldr_cons, Nat.max_le, ih, List.forall_mem_cons]

theorem dumpProgram_eq (programSource : LineString) (placeholder : MatrixPlaceholder) :
    dumpProgram programSource placeholder
      = if placeholder.kind = .code then
          if programSource.lines.length > placeholder.height then
            .error (.examTemplateRealizationException
              (jstr "Program is too high for placeholder " ++ placeholder.repr))
          else if programSource.longestLineLength > placeholder.width then
            .error (.examTemplateRealizationException
              (jstr "Program is too wide for placeholder " ++ placeholder.repr))
          else .ok ⟨programSource.lines ++
            List.replicate (placeholder.height - programSource.lines.length) []⟩
        else .error .illegalArgumentException := by
  unfold dumpProgram
  rw [checkArgument_bind]
  simp only [decide_eq_true_eq]
  rfl

/-- **`dumpProgram` accepts what fits**, and pads it. -/
theorem dumpProgram_eq_ok {programSource : LineString} {placeholder : MatrixPlaceholder}
    {content : LineString} : dumpProgram programSource placeholder = .ok content ↔
      placeholder.kind = .code ∧ placeholder.Fits programSource ∧
        content = ⟨programSource.lines ++
          List.replicate (placeholder.height - programSource.lines.length) []⟩ := by
  rw [dumpProgram_eq]
  unfold MatrixPlaceholder.Fits
  rw [← longestLineLength_le]
  split_ifs with hkind hhigh hwide
  · constructor
    · intro h
      exact absurd h (by simp)
    · intro h
      omega
  · constructor
    · intro h
      exact absurd h (by simp)
    · intro h
      omega
  · rw [Nat.not_lt] at hhigh hwide
    simp [hkind, hhigh, hwide, eq_comm]
  · simp [hkind]

/-- What a code placeholder does with a program: it is refused as too high, refused as too wide, or
shown. -/
theorem dumpProgram_cases {placeholder : MatrixPlaceholder} (hkind : placeholder.kind = .code)
    (lines : List JString) :
    placeholder.height < lines.length ∧
        dumpProgram ⟨lines⟩ placeholder = .error (.examTemplateRealizationException
          (jstr "Program is too high for placeholder " ++ placeholder.repr)) ∨
      (lines.length ≤ placeholder.height ∧ ¬ placeholder.WideEnough lines) ∧
        dumpProgram ⟨lines⟩ placeholder = .error (.examTemplateRealizationException
          (jstr "Program is too wide for placeholder " ++ placeholder.repr)) ∨
      (lines.length ≤ placeholder.height ∧ placeholder.WideEnough lines) ∧
        dumpProgram ⟨lines⟩ placeholder = .ok ⟨placeholder.pad lines⟩ := by
  by_cases hhigh : placeholder.height < lines.length
  · refine .inl ⟨hhigh, ?_⟩
    rw [dumpProgram_eq, if_pos hkind, if_pos hhigh]
  have hheight := Nat.not_lt.mp hhigh
  by_cases hwide : placeholder.WideEnough lines
  · exact .inr (.inr ⟨⟨hheight, hwide⟩, dumpProgram_eq_ok.mpr ⟨hkind, ⟨hheight, hwide⟩, rfl⟩⟩)
  · have hlong : LineString.longestLineLength ⟨lines⟩ > placeholder.width :=
      Nat.lt_of_not_le fun h => hwide (longestLineLength_le.mp h)
    refine .inr (.inl ⟨⟨hheight, hwide⟩, ?_⟩)
    rw [dumpProgram_eq, if_pos hkind, if_neg hhigh, if_pos hlong]

/-- What does not fit is refused in the right way. -/
theorem dumpProgram_error {source : LineString} {placeholder : MatrixPlaceholder}
    (hkind : placeholder.kind = .code) (h : ¬ placeholder.Fits source) :
    ∃ message, dumpProgram source placeholder
      = .error (.examTemplateRealizationException message) := by
  rcases dumpProgram_cases hkind source.lines with ⟨-, hdump⟩ | ⟨-, hdump⟩ | ⟨hfits, -⟩
  · exact ⟨_, hdump⟩
  · exact ⟨_, hdump⟩
  · exact absurd hfits h

theorem fits_congr {str₁ str₂ : LineString}
    (h : str₁.lines.map List.length = str₂.lines.map List.length)
    (placeholder : MatrixPlaceholder) : placeholder.Fits str₁ ↔ placeholder.Fits str₂ := by
  have hlines : ∀ str : LineString, placeholder.Fits str ↔
      (str.lines.map List.length).length ≤ placeholder.height ∧
        ∀ n ∈ str.lines.map List.length, n ≤ placeholder.width := by
    intro str
    rw [List.length_map, List.forall_mem_map]
    rfl
  rw [hlines, hlines, h]

/-- Programs with lines of the same lengths are accepted together, and then dumped to lines of the
same lengths. -/
theorem dumpProgram_lengths {str₁ str₂ : LineString}
    (h : str₁.lines.map List.length = str₂.lines.map List.length)
    (placeholder : MatrixPlaceholder) :
    ((∃ content, dumpProgram str₁ placeholder = .ok content) ↔
      ∃ content, dumpProgram str₂ placeholder = .ok content) ∧
    ∀ content₁ content₂, dumpProgram str₁ placeholder = .ok content₁ →
      dumpProgram str₂ placeholder = .ok content₂ →
        content₁.lines.map List.length = content₂.lines.map List.length := by
  have hlength : str₁.lines.length = str₂.lines.length := by
    have := congrArg List.length h
    rwa [List.length_map, List.length_map] at this
  simp only [dumpProgram_eq_ok]
  constructor
  · rw [fits_congr h]
    simp
  · rintro content₁ content₂ ⟨-, -, rfl⟩ ⟨-, -, rfl⟩
    rw [List.map_append, List.map_append, h, hlength]

/-! ### The three views -/

theorem view_lengths (programTemplate : ProgramTemplate) (group : Group) :
    (realizeProgramTemplate programTemplate .student group).lines.map List.length
      = (realizeProgramTemplate programTemplate .teacher group).lines.map List.length := by
  rw [student_lines, teacher_lines, List.map_map, List.map_map]
  exact List.map_congr_left fun line _ => length_realizeLineTemplateNodes line

theorem realizedFrom_teacher_compiler (programTemplate : ProgramTemplate) (group : Group) :
    (realizedFrom programTemplate .teacher group).filter (fun p => p.1.kind ≠ .excluded)
      = (realizedFrom programTemplate .compiler group).filter (fun p => p.1.kind ≠ .hidden) := by
  rw [realizedFrom_eq, realizedFrom_eq, List.filter_map, List.filter_map]
  unfold ProgramTemplate.realizedLines
  rw [List.filter_filter, List.filter_filter]
  -- the two filters and the lines left out for the variant only change places
  have hfilter : ∀ line ∈ programTemplate.lineTemplates,
      (decide (line.kind ≠ .excluded) &&
        decide (line.MeantFor group ∧ line.kind ≠ ProgramVariant.leftOut .teacher))
      = (decide (line.kind ≠ .hidden) &&
        decide (line.MeantFor group ∧ line.kind ≠ ProgramVariant.leftOut .compiler)) := by
    intro line _
    rw [Bool.eq_iff_iff]
    rw [Bool.and_eq_true, Bool.and_eq_true, decide_eq_true_iff, decide_eq_true_iff,
      decide_eq_true_iff, decide_eq_true_iff]
    exact and_left_comm.trans (and_congr_right fun _ => and_comm) |>.trans and_left_comm
  exact congrArg _ (List.filter_congr hfilter)

/-- **The three views of one program agree**, for every source text and every group: the student's
lines are the teacher's with the gaps blanked, a code placeholder accepts both or neither, and up
to the lines that are marked the teacher's lines are those that were compiled. -/
theorem views_agree (programTemplateStr : JString) (group : Group) :
    ∃ programTemplate, parseProgramTemplate programTemplateStr = .ok programTemplate ∧
      (realizeProgramTemplate programTemplate .student group).lines.length
        = (programTemplate.visibleLines group).length ∧
      (realizeProgramTemplate programTemplate .teacher group).lines.length
        = (programTemplate.visibleLines group).length ∧
      (∀ (i : ℕ) line, (programTemplate.visibleLines group)[i]? = some line →
        ∃ s r, (realizeProgramTemplate programTemplate .student group).lines[i]? = some s ∧
          (realizeProgramTemplate programTemplate .teacher group).lines[i]? = some r ∧
          BlanksGaps line.nodes s r) ∧
      (∀ placeholder,
        ((∃ content, dumpProgram (realizeProgramTemplate programTemplate .student group)
            placeholder = .ok content) ↔
          ∃ content, dumpProgram (realizeProgramTemplate programTemplate .teacher group)
            placeholder = .ok content) ∧
        ∀ contentS contentR,
          dumpProgram (realizeProgramTemplate programTemplate .student group) placeholder
            = .ok contentS →
          dumpProgram (realizeProgramTemplate programTemplate .teacher group) placeholder
            = .ok contentR →
          contentS.lines.map List.length = contentR.lines.map List.length) ∧
      (∀ variant, (realizedFrom programTemplate variant group).map Prod.snd
        = (realizeProgramTemplate programTemplate variant group).lines) ∧
      (realizedFrom programTemplate .teacher group).filter (fun p => p.1.kind ≠ .excluded)
        = (realizedFrom programTemplate .compiler group).filter
            (fun p => p.1.kind ≠ .hidden) := by
  obtain ⟨programTemplate, hparse⟩ := parseProgramTemplate_ok programTemplateStr
  refine ⟨programTemplate, hparse, ?_, ?_, ?_, fun placeholder => ?_, fun variant => ?_, ?_⟩
  · rw [student_lines, List.length_map]
  · rw [teacher_lines, List.length_map]
  · intro i line hline
    refine ⟨realizeLineTemplateNodes line .student, realizeLineTemplateNodes line .teacher,
      ?_, ?_, blanksGaps_realizeLineTemplateNodes line⟩
    · rw [student_lines, List.getElem?_map, hline]
      rfl
    · rw [teacher_lines, List.getElem?_map, hline]
      rfl
  · exact dumpProgram_lengths (view_lengths programTemplate group) placeholder
  · exact map_snd_realizedFrom programTemplate variant group
  · exact realizedFrom_teacher_compiler programTemplate group

/-! ### What a student's view depends on -/

/-- Nodes that look the same to a student: equal texts, or gaps of the same length. -/
inductive SameShape : LineNode → LineNode → Prop
  | text (content : JString) : SameShape (.text content) (.text content)
  | gap {content₁ content₂ : JString} (h : content₁.length = content₂.length) :
    SameShape (.gap content₁) (.gap content₂)

/-- Programs whose visible lines look the same to a student of the group. -/
def SameVisibleShape (group : Group) (programTemplate₁ programTemplate₂ : ProgramTemplate) : Prop :=
  List.Forall₂ (fun line₁ line₂ : LineTemplate => List.Forall₂ SameShape line₁.nodes line₂.nodes)
    (programTemplate₁.visibleLines group) (programTemplate₂.visibleLines group)

theorem realizeNode_student_eq {node₁ node₂ : LineNode} (h : SameShape node₁ node₂) :
    realizeNode node₁ .student = realizeNode node₂ .student := by
  cases h with
  | text content => rfl
  | gap hlength => simp [realizeNode, hlength]

/-- **A student sees no more than the shape of the visible lines.** -/
theorem realizeProgramTemplate_student_eq {group : Group}
    {programTemplate₁ programTemplate₂ : ProgramTemplate}
    (h : SameVisibleShape group programTemplate₁ programTemplate₂) :
    realizeProgramTemplate programTemplate₁ .student group
      = realizeProgramTemplate programTemplate₂ .student group := by
  have hnodes : ∀ {nodes₁ nodes₂ : List LineNode}, List.Forall₂ SameShape nodes₁ nodes₂ →
      nodes₁.flatMap (realizeNode · .student) = nodes₂.flatMap (realizeNode · .student) := by
    intro nodes₁ nodes₂ h
    induction h with
    | nil => rfl
    | cons hnode _ ih => rw [List.flatMap_cons, List.flatMap_cons, realizeNode_student_eq hnode, ih]
  have hlines : (realizeProgramTemplate programTemplate₁ .student group).lines
      = (realizeProgramTemplate programTemplate₂ .student group).lines := by
    rw [student_lines, student_lines]
    unfold SameVisibleShape at h
    generalize programTemplate₁.visibleLines group = lines₁ at h
    generalize programTemplate₂.visibleLines group = lines₂ at h
    induction h with
    | nil => rfl
    | cons hline _ ih =>
      rw [List.map_cons, List.map_cons, ih]
      exact congrArg (· :: _) (hnodes hline)
  exact congrArg LineString.mk hlines

end ExamGeneratorNg
