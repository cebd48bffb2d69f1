import ExamGeneratorNg.Equiv.LineToNodes
import ExamGeneratorNg.Equiv.ProgramTemplateRealization
import ExamGeneratorNg.ExamGeneration
import ExamGeneratorNg.Stateful.Basic

/-!
# Correctness of the filling of placeholders

Filling a placeholder computes a content, which may fail, and then writes it into the cell, which
cannot fail (`run_fillPlaceholder`).  So two fillings agree as soon as the contents do:
`fillPlaceholders_student_eq` says that a student's exam depends on nothing a student must not
see, and `filled_together_iff` when the two variants of an exam can be filled or refused together.
-/

namespace ExamGeneratorNg

/-! ### Filling one cell -/

/-- The document with the children of the cell that `ref` leads to replaced by one paragraph. -/
def writeCell (contentDom : Node) (placeholderRef : PlaceholderRef) (paragraph : Node) : Node :=
  (contentDom.removeAllChildren placeholderRef.wrapperCell).appendChild placeholderRef.wrapperCell
    paragraph

section

variable (toLowerCase : JString → JString)

/-- A placeholder whose content cannot be computed leaves the document as it is. -/
theorem run_fillPlaceholder_error {placeholderRef : PlaceholderRef} {exam : Exam}
    {variant : ExamVariant} {e : JavaException}
    (h : contentForPlaceholder toLowerCase placeholderRef.placeholder exam variant = .error e)
    (contentDom : Node) :
    (fillPlaceholder toLowerCase placeholderRef exam variant).run.run contentDom
      = (.error e, contentDom) := by
  unfold fillPlaceholder
  rw [h]
  rfl

/-- **Filling a placeholder** writes its content into its cell. -/
theorem run_fillPlaceholder_ok {placeholderRef : PlaceholderRef} {exam : Exam}
    {variant : ExamVariant} {content : LineString}
    (h : contentForPlaceholder toLowerCase placeholderRef.placeholder exam variant = .ok content)
    (contentDom : Node) :
    ∃ paragraph, lineStringToParagraph content placeholderRef.styleName = .ok paragraph ∧
      (fillPlaceholder toLowerCase placeholderRef exam variant).run.run contentDom
        = (.ok (), writeCell contentDom placeholderRef paragraph) := by
  obtain ⟨nodesMatrix, hparagraph, -⟩ := lineStringToParagraph_spec content placeholderRef.styleName
  refine ⟨_, hparagraph, ?_⟩
  unfold fillPlaceholder
  rw [h]
  show (fillPlaceholderWithContent placeholderRef content).run.run contentDom = _
  unfold fillPlaceholderWithContent
  dsimp only
  rw [hparagraph]
  rfl

/-- **All placeholders are filled or none is**: filling ends without an exception if and only if
every content can be computed. -/
theorem fillPlaceholders_ok_iff {placeholderRefs : List PlaceholderRef} {exam : Exam}
    {variant : ExamVariant} {contentDom : Node} :
    ((fillPlaceholders toLowerCase placeholderRefs exam variant).run.run contentDom).1 = .ok () ↔
      ∀ placeholderRef ∈ placeholderRefs, ∃ content,
        contentForPlaceholder toLowerCase placeholderRef.placeholder exam variant
          = .ok content := by
  unfold fillPlaceholders
  induction placeholderRefs generalizing contentDom with
  | nil => exact ⟨fun _ => by simp, fun _ => rfl⟩
  | cons placeholderRef placeholderRefs ih =>
    rw [List.forM_cons, List.forall_mem_cons, Stateful.run_bind]
    cases hcontent : contentForPlaceholder toLowerCase placeholderRef.placeholder exam variant with
    | error e =>
      rw [run_fillPlaceholder_error toLowerCase hcontent contentDom]
      simp
    | ok content =>
      obtain ⟨paragraph, -, hrun⟩ := run_fillPlaceholder_ok toLowerCase hcontent contentDom
      rw [hrun]
      simp only [ih]
      simp

end

/-! ### Contents -/

/-- The line with the given number, counted from 1. -/
def lineNumber (lines : List JString) (n : ℕ) : Option JString :=
  if n = 0 then none else lines[n - 1]?

theorem dumpOutputLineString_eq (programOutput : LineString) (placeholder : MatrixPlaceholder) :
    dumpOutputLineString programOutput placeholder
      = match lineNumber programOutput.lines placeholder.lineIndex with
        | some line => LineString.fromSingleLine line
        | none =>
          .error (if placeholder.lineIndex = 0 then .indexOutOfBoundsException
            else .examTemplateRealizationException
              (placeholder.repr ++ jstr ": Index out of bounds of program output")) := by
  unfold dumpOutputLineString lineNumber listGet
  by_cases h0 : placeholder.lineIndex = 0
  · -- the check does not look below index 0, so `get` throws
    have hlt : ((placeholder.lineIndex : ℤ) - 1 < programOutput.lines.length) := by omega
    simp only [h0, if_true] at hlt ⊢
    rw [if_pos hlt]
    rfl
  · have hindex : ((placeholder.lineIndex : ℤ) - 1).toNat = placeholder.lineIndex - 1 := by omega
    have hneg : ¬((placeholder.lineIndex : ℤ) - 1 < 0) := by omega
    simp only [h0, if_false, hindex, hneg]
    by_cases hlt : (placeholder.lineIndex : ℤ) - 1 < programOutput.lines.length
    · rw [if_pos hlt, List.getElem?_eq_getElem (by omega)]
      rfl
    · rw [if_neg hlt, List.getElem?_eq_none (by omega)]
      rfl

section

variable (toLowerCase : JString → JString)

theorem contentForPlaceholder_matrix (placeholder : MatrixPlaceholder) (exam : Exam)
    (variant : ExamVariant) :
    contentForPlaceholder toLowerCase (.matrix placeholder) exam variant
      = (Group.fromLowercaseIdentifier (toLowerCase exam.group) >>= fun group =>
          extractContentForPlaceholder (exam.examProgramMap.lookup ⟨placeholder.index⟩)
            (.matrix placeholder) variant group) := rfl

theorem contentForPlaceholder_line (placeholder : LinePlaceholder) (exam : Exam)
    (variant : ExamVariant) :
    contentForPlaceholder toLowerCase (.line placeholder) exam variant
      = (Group.fromLowercaseIdentifier (toLowerCase exam.group) >>= fun group =>
          match placeholder.kind with
          | .group => LineString.fromSingleLine group.getIdentifier
          | .kind => LineString.fromSingleLine variant.name) := rfl

theorem lookup_buildExamModel (m : JMap ProgramId EvaluatedProgramTemplate) (group : Group)
    (variant : ExamVariant) (programId : ProgramId) :
    (buildExamModel m group variant).examProgramMap.lookup programId
      = (m.lookup programId).map fun programTemplate =>
          buildExamProgram programTemplate group variant :=
  lookup_mapMapByValue m _ programId

/-! ### What a student's exam depends on -/

/-- Two sets of evaluated programs that a student of the group must not be able to tell apart by
an exam with the given placeholders. -/
structure SameForStudents (group : Group) (placeholders : List Placeholder)
    (m₁ m₂ : JMap ProgramId EvaluatedProgramTemplate) : Prop where
  same_ids : ∀ programId, m₁.lookup programId = none ↔ m₂.lookup programId = none
  same_shape : ∀ programId program₁ program₂, m₁.lookup programId = some program₁ →
    m₂.lookup programId = some program₂ →
    SameVisibleShape group program₁.programTemplate program₂.programTemplate
  same_lines : ∀ placeholder, .matrix placeholder ∈ placeholders → placeholder.kind = .output →
    ∀ program₁ program₂, m₁.lookup ⟨placeholder.index⟩ = some program₁ →
      m₂.lookup ⟨placeholder.index⟩ = some program₂ →
      lineNumber program₁.programOutput.standardOutput placeholder.lineIndex
        = lineNumber program₂.programOutput.standardOutput placeholder.lineIndex

variable {group : Group} {placeholders : List Placeholder}
  {m₁ m₂ : JMap ProgramId EvaluatedProgramTemplate}

theorem contentForPlaceholder_student_eq (h : SameForStudents group placeholders m₁ m₂)
    {placeholder : Placeholder} (hmem : placeholder ∈ placeholders) :
    contentForPlaceholder toLowerCase placeholder (buildExamModel m₁ group .student) .student
      = contentForPlaceholder toLowerCase placeholder (buildExamModel m₂ group .student)
          .student := by
  cases placeholder with
  | line placeholder => rfl
  | matrix placeholder =>
    rw [contentForPlaceholder_matrix, contentForPlaceholder_matrix, lookup_buildExamModel,
      lookup_buildExamModel]
    have hids := h.same_ids ⟨placeholder.index⟩
    cases h₁ : m₁.lookup ⟨placeholder.index⟩ with
    | none => rw [hids.mp h₁]; rfl
    | some program₁ =>
      cases h₂ : m₂.lookup ⟨placeholder.index⟩ with
      | none => rw [hids.mpr h₂] at h₁; exact absurd h₁ (by simp)
      | some program₂ =>
        have hextract : ∀ group', extractContentForPlaceholder
            (some (buildExamProgram program₁ group .student)) (.matrix placeholder) .student group'
            = extractContentForPlaceholder
                (some (buildExamProgram program₂ group .student)) (.matrix placeholder) .student
                group' := by
          intro group'
          unfold extractContentForPlaceholder
          cases hkind : placeholder.kind with
          | code =>
            -- gap contents and hidden lines are gone from the source
            simp only [hkind]
            have hsource := realizeProgramTemplate_student_eq
              (h.same_shape ⟨placeholder.index⟩ program₁ program₂ h₁ h₂)
            exact congrArg (dumpProgram · placeholder) hsource
          | output =>
            -- only the line that is named is looked at
            simp only [hkind, dumpOutput, dumpOutputLineString_eq]
            have hline := h.same_lines placeholder hmem hkind program₁ program₂ h₁ h₂
            rw [buildExamProgram, buildExamProgram, hline]
          | secretOutput => simp only [hkind, dumpSecretOutput]
        show (Group.fromLowercaseIdentifier (toLowerCase group.getIdentifier) >>= _)
          = (Group.fromLowercaseIdentifier (toLowerCase group.getIdentifier) >>= _)
        exact congrArg _ (funext hextract)

/-- **Student exams do not leak answers**: on two sets of programs that a student must not be able
to tell apart, every placeholder of the student's exam gets the same content or is refused with
the same exception, and the whole filling gives the same document. -/
theorem fillPlaceholders_student_eq {placeholderRefs : List PlaceholderRef}
    (h : SameForStudents group (placeholderRefs.map PlaceholderRef.placeholder) m₁ m₂) :
    (∀ placeholderRef ∈ placeholderRefs,
      contentForPlaceholder toLowerCase placeholderRef.placeholder
          (buildExamModel m₁ group .student) .student
        = contentForPlaceholder toLowerCase placeholderRef.placeholder
            (buildExamModel m₂ group .student) .student) ∧
    ∀ contentDom,
      (fillPlaceholders toLowerCase placeholderRefs (buildExamModel m₁ group .student)
          .student).run.run contentDom
        = (fillPlaceholders toLowerCase placeholderRefs (buildExamModel m₂ group .student)
            .student).run.run contentDom := by
  have hcontents : ∀ placeholderRef ∈ placeholderRefs,
      contentForPlaceholder toLowerCase placeholderRef.placeholder
          (buildExamModel m₁ group .student) .student
        = contentForPlaceholder toLowerCase placeholderRef.placeholder
            (buildExamModel m₂ group .student) .student := fun placeholderRef hmem =>
    contentForPlaceholder_student_eq toLowerCase h (List.mem_map_of_mem hmem)
  refine ⟨hcontents, fun contentDom => ?_⟩
  have hfill : fillPlaceholders toLowerCase placeholderRefs (buildExamModel m₁ group .student)
        .student
      = fillPlaceholders toLowerCase placeholderRefs (buildExamModel m₂ group .student)
          .student := by
    unfold fillPlaceholders
    clear h
    induction placeholderRefs with
    | nil => rfl
    | cons placeholderRef placeholderRefs ih =>
      obtain ⟨hhead, htail⟩ := List.forall_mem_cons.mp hcontents
      rw [List.forM_cons, List.forM_cons, ih htail]
      unfold fillPlaceholder
      rw [hhead]
  rw [hfill]

/-- An exam with one program, which has an answer, a hidden line and a second output line. -/
def oneProgram (answer hidden secret : JString) : JMap ProgramId EvaluatedProgramTemplate :=
  mapToMap [⟨1⟩] fun _ =>
    ⟨⟨[⟨[.text (jstr "x = "), .gap answer], .normal, none⟩, ⟨[.text hidden], .hidden, none⟩]⟩,
      ⟨[jstr "ok", secret], []⟩⟩

theorem sameForStudents_oneProgram {answer₁ answer₂ : JString}
    (hlength : answer₁.length = answer₂.length) (hidden₁ hidden₂ secret₁ secret₂ : JString) :
    SameForStudents .A [.matrix ⟨8, 1, 1, 0, .code⟩, .matrix ⟨6, 1, 1, 1, .output⟩,
        .matrix ⟨6, 1, 1, 2, .secretOutput⟩]
      (oneProgram answer₁ hidden₁ secret₁) (oneProgram answer₂ hidden₂ secret₂) := by
  refine ⟨?_, ?_, ?_⟩
  · intro programId
    simp [oneProgram, lookup_mapToMap]
  · intro programId program₁ program₂ h₁ h₂
    simp only [oneProgram, lookup_mapToMap] at h₁ h₂
    split_ifs at h₁ h₂ with hid
    obtain rfl := Option.some.inj h₁
    obtain rfl := Option.some.inj h₂
    exact .cons (.cons (.text _) (.cons (.gap hlength) .nil)) .nil
  · intro placeholder hmem hkind program₁ program₂ h₁ h₂
    simp only [oneProgram, lookup_mapToMap] at h₁ h₂
    split_ifs at h₁ h₂ with hid
    obtain rfl := Option.some.inj h₁
    obtain rfl := Option.some.inj h₂
    simp only [List.mem_cons, List.not_mem_nil, or_false, Placeholder.matrix.injEq] at hmem
    rcases hmem with rfl | rfl | rfl
    · exact absurd hkind (by decide)
    · rfl
    · exact absurd hkind (by decide)

/-- The answers `12` and `34`, other hidden lines and another second output line. -/
theorem fillPlaceholders_student_eq_example :
    ((fillPlaceholders asciiToLowerCase [⟨some 0, [], .matrix ⟨8, 1, 1, 0, .code⟩⟩,
          ⟨some 1, [], .matrix ⟨6, 1, 1, 1, .output⟩⟩,
          ⟨some 2, [], .matrix ⟨6, 1, 1, 2, .secretOutput⟩⟩]
        (buildExamModel (oneProgram (jstr "12") (jstr "f();") (jstr "7")) .A .student)
        .student).run.run Node.lineBreak)
      = ((fillPlaceholders asciiToLowerCase [⟨some 0, [], .matrix ⟨8, 1, 1, 0, .code⟩⟩,
          ⟨some 1, [], .matrix ⟨6, 1, 1, 1, .output⟩⟩,
          ⟨some 2, [], .matrix ⟨6, 1, 1, 2, .secretOutput⟩⟩]
        (buildExamModel (oneProgram (jstr "34") (jstr "g();") (jstr "8")) .A .student)
        .student).run.run Node.lineBreak) :=
  have hlength : (jstr "12").length = (jstr "34").length := by decide
  (fillPlaceholders_student_eq asciiToLowerCase
    (sameForStudents_oneProgram hlength _ _ _ _)).2 Node.lineBreak

/-! ### When the two variants are refused together -/

/-- The number of characters of a realized line. -/
def LineTemplate.width (line : LineTemplate) : ℕ :=
  (line.nodes.map fun node => node.content.length).sum

theorem length_realizeLineTemplateNodes_eq (line : LineTemplate) (variant : ProgramVariant) :
    (realizeLineTemplateNodes line variant).length = line.width := by
  unfold realizeLineTemplateNodes LineTemplate.width
  rw [List.length_flatMap]
  congr 1
  refine List.map_congr_left fun node _ => ?_
  cases node with
  | text content => rfl
  | gap content => cases variant <;> simp [realizeNode, LineNode.content]

/-- The lines of the program shown to the group fit into the box of the placeholder. -/
def CodeFits (program : EvaluatedProgramTemplate) (group : Group)
    (placeholder : MatrixPlaceholder) : Prop :=
  (program.programTemplate.visibleLines group).length ≤ placeholder.height ∧
    ∀ line ∈ program.programTemplate.visibleLines group, line.width ≤ placeholder.width

/-- The program has written the line the placeholder names, and it has no line break in it. -/
def LineShown (program : EvaluatedProgramTemplate) (placeholder : MatrixPlaceholder) : Prop :=
  ∃ line, lineNumber program.programOutput.standardOutput placeholder.lineIndex = some line ∧
    chr '\r' ∉ line ∧ chr '\n' ∉ line

/-- The identifier of the group, in lower case, is a lowercase letter again. -/
def GroupReadable (group : Group) : Prop :=
  ∃ group', Group.fromLowercaseIdentifier (toLowerCase group.getIdentifier) = .ok group'

theorem fromSingleLine_ok_iff {line : JString} :
    (∃ content, LineString.fromSingleLine line = .ok content) ↔
      chr '\r' ∉ line ∧ chr '\n' ∉ line := by
  unfold LineString.fromSingleLine
  rw [checkArgument_bind, checkArgument_bind]
  by_cases hr : chr '\r' ∈ line <;> by_cases hn : chr '\n' ∈ line <;>
    simp [hr, hn, pure, Except.pure]

theorem dumpOutputLineString_ok_iff {program : EvaluatedProgramTemplate}
    {placeholder : MatrixPlaceholder} :
    (∃ content, dumpOutputLineString ⟨program.programOutput.standardOutput⟩ placeholder
      = .ok content) ↔ LineShown program placeholder := by
  rw [dumpOutputLineString_eq]
  unfold LineShown
  cases lineNumber program.programOutput.standardOutput placeholder.lineIndex with
  | none => simp
  | some line => simpa using fromSingleLine_ok_iff

/-- What the two variants ask of a program so that a placeholder can be filled. -/
def ContentExists (program : EvaluatedProgramTemplate) (group : Group) (variant : ExamVariant)
    (placeholder : MatrixPlaceholder) : Prop :=
  match placeholder.kind with
  | .code => CodeFits program group placeholder
  | .output => LineShown program placeholder
  | .secretOutput => variant = .teacher → LineShown program placeholder

theorem dumpProgram_ok_iff {program : EvaluatedProgramTemplate} {group : Group}
    {variant : ExamVariant} {placeholder : MatrixPlaceholder} (hkind : placeholder.kind = .code) :
    (∃ content, dumpProgram (buildExamProgramSource program.programTemplate group variant)
      placeholder = .ok content) ↔ CodeFits program group placeholder := by
  have hfits : ∀ programVariant : ProgramVariant, programVariant ≠ .compiler →
      (placeholder.Fits (realizeProgramTemplate program.programTemplate programVariant group) ↔
        CodeFits program group placeholder) := by
    intro programVariant hvariant
    unfold MatrixPlaceholder.Fits CodeFits
    have hlines : (realizeProgramTemplate program.programTemplate programVariant group).lines
        = (program.programTemplate.visibleLines group).map
            (realizeLineTemplateNodes · programVariant) := by
      cases programVariant with
      | student => exact student_lines _ _
      | teacher => exact teacher_lines _ _
      | compiler => exact absurd rfl hvariant
    rw [hlines, List.length_map, List.forall_mem_map]
    simp only [length_realizeLineTemplateNodes_eq]
  simp only [dumpProgram_eq_ok, hkind, true_and, exists_and_left, exists_eq, and_true]
  cases variant with
  | student => exact hfits .student (by simp)
  | teacher => exact hfits .teacher (by simp)

theorem extractContent_ok_iff {program : EvaluatedProgramTemplate} {group group' : Group}
    {variant : ExamVariant} {placeholder : MatrixPlaceholder} :
    (∃ content, extractContentForPlaceholder (some (buildExamProgram program group variant))
      (.matrix placeholder) variant group' = .ok content) ↔
      ContentExists program group variant placeholder := by
  unfold extractContentForPlaceholder ContentExists
  cases hkind : placeholder.kind with
  | code =>
    simp only [hkind]
    exact dumpProgram_ok_iff hkind
  | output =>
    simp only [hkind, dumpOutput, checkArgument_bind, decide_true, if_true]
    exact dumpOutputLineString_ok_iff
  | secretOutput =>
    simp only [hkind, dumpSecretOutput, checkArgument_bind, decide_true, if_true]
    cases variant with
    | student =>
      -- underscores are always a single line
      simp only [reduceCtorEq, false_imp_iff, iff_true]
      rw [fromSingleLine_ok_iff, nCopiesOfChar_eq]
      constructor
      · intro h
        exact absurd (List.eq_of_mem_replicate h) (by decide)
      · intro h
        exact absurd (List.eq_of_mem_replicate h) (by decide)
    | teacher =>
      simp only [true_imp_iff]
      exact dumpOutputLineString_ok_iff

/-- A group that was read from a lowercase letter has an uppercase letter as its identifier. -/
theorem getIdentifier_of_fromLowercaseIdentifier {id : JString} {group : Group}
    (h : Group.fromLowercaseIdentifier id = .ok group) :
    chr '\r' ∉ group.getIdentifier ∧ chr '\n' ∉ group.getIdentifier := by
  unfold Group.fromLowercaseIdentifier at h
  split at h
  · next c =>
    split_ifs at h with hc
    obtain rfl := Except.ok.inj h
    simp only [isLowercase, Bool.and_eq_true, decide_eq_true_eq, UInt16.le_iff_toNat_le] at hc
    have ha : (chr 'a').toNat = 97 := by decide
    have hz : (chr 'z').toNat = 122 := by decide
    rw [ha, hz] at hc
    -- the identifier is behind `A`
    have hletter : ∀ n : ℕ, n < 65 → UInt16.ofNat n ∉
        (Group.getIdentifier ⟨(c.toNat : ℤ) - (chr 'a').toNat⟩) := by
      intro n hn hmem
      have heq := List.mem_singleton.mp hmem
      have hnat := congrArg UInt16.toNat heq
      rw [UInt16.toNat_ofNat_of_lt' (by show n < 65536; omega), UInt16.toNat_ofNat_of_lt'] at hnat
      · simp only [ha] at hnat
        have hA : ('A'.toNat : ℤ) = 65 := rfl
        rw [hA] at hnat
        omega
      · show _ < 65536
        omega
    exact ⟨hletter 13 (by omega), hletter 10 (by omega)⟩
  · exact absurd h (by simp)

/-- **When a placeholder can be filled** for a variant. -/
theorem contentForPlaceholder_ok_iff {placeholder : Placeholder} {variant : ExamVariant}
    (hmap : ∀ p, placeholder = .matrix p → m₁.lookup ⟨p.index⟩ ≠ none) :
    (∃ content, contentForPlaceholder toLowerCase placeholder (buildExamModel m₁ group variant)
      variant = .ok content) ↔
      GroupReadable toLowerCase group ∧
        ∀ p, placeholder = .matrix p → ∀ program, m₁.lookup ⟨p.index⟩ = some program →
          ContentExists program group variant p := by
  -- the group is read before anything else
  have hbind : ∀ (f : Group → Except JavaException LineString) (P : Prop),
      (∀ id group', Group.fromLowercaseIdentifier id = .ok group' →
        ((∃ content, f group' = .ok content) ↔ P)) →
      ((∃ content, (Group.fromLowercaseIdentifier (toLowerCase group.getIdentifier) >>= f)
        = .ok content) ↔ GroupReadable toLowerCase group ∧ P) := by
    intro f P hf
    unfold GroupReadable
    cases hgroup : Group.fromLowercaseIdentifier (toLowerCase group.getIdentifier) with
    | error e => simp [bind, Except.bind]
    | ok group' => simpa [bind, Except.bind] using hf _ group' hgroup
  cases placeholder with
  | line placeholder =>
    rw [contentForPlaceholder_line]
    refine (hbind _ True fun id group' hgroup => ?_).trans (by simp)
    cases placeholder.kind with
    | group =>
      simpa using fromSingleLine_ok_iff.mpr (getIdentifier_of_fromLowercaseIdentifier hgroup)
    | kind =>
      have hname : chr '\r' ∉ variant.name ∧ chr '\n' ∉ variant.name := by
        cases variant <;> decide
      simpa using fromSingleLine_ok_iff.mpr hname
  | matrix placeholder =>
    obtain ⟨program, hprogram⟩ := Option.ne_none_iff_exists'.mp (hmap placeholder rfl)
    rw [contentForPlaceholder_matrix, lookup_buildExamModel, hprogram]
    refine (hbind _ (ContentExists program group variant placeholder)
      fun id group' _ => extractContent_ok_iff).trans ?_
    simp [hprogram]

/-- Every secret output placeholder names a line that can be shown. -/
def SecretsShown (m : JMap ProgramId EvaluatedProgramTemplate)
    (placeholderRefs : List PlaceholderRef) : Prop :=
  ∀ placeholderRef ∈ placeholderRefs, ∀ p, placeholderRef.placeholder = .matrix p →
    p.kind = .secretOutput → ∀ program, m.lookup ⟨p.index⟩ = some program → LineShown program p

/-- Some placeholder is refused whatever the variant: the group cannot be read, the code does not
fit, or an output line cannot be shown. -/
def RefusedForBoth (group : Group) (m : JMap ProgramId EvaluatedProgramTemplate)
    (placeholderRefs : List PlaceholderRef) : Prop :=
  ∃ placeholderRef ∈ placeholderRefs, ¬ GroupReadable toLowerCase group ∨
    ∃ p program, placeholderRef.placeholder = .matrix p ∧ m.lookup ⟨p.index⟩ = some program ∧
      (p.kind = .code ∧ ¬ CodeFits program group p ∨ p.kind = .output ∧ ¬ LineShown program p)

theorem contentExists_student_iff {program : EvaluatedProgramTemplate} {p : MatrixPlaceholder} :
    ContentExists program group .student p ↔
      ¬(p.kind = .code ∧ ¬ CodeFits program group p
        ∨ p.kind = .output ∧ ¬ LineShown program p) := by
  unfold ContentExists
  cases p.kind <;> simp

theorem contentExists_teacher_iff {program : EvaluatedProgramTemplate} {p : MatrixPlaceholder} :
    ContentExists program group .teacher p ↔ ContentExists program group .student p ∧
      (p.kind = .secretOutput → LineShown program p) := by
  unfold ContentExists
  cases p.kind <;> simp

section

variable {toLowerCase} {placeholderRefs : List PlaceholderRef}
  (hmap : ∀ placeholderRef ∈ placeholderRefs, ∀ p, placeholderRef.placeholder = .matrix p →
    m₁.lookup ⟨p.index⟩ ≠ none)
  (contentDom : Node)

include hmap

theorem student_filled_iff :
    ((fillPlaceholders toLowerCase placeholderRefs (buildExamModel m₁ group .student)
      .student).run.run contentDom).1 = .ok () ↔
      ¬ RefusedForBoth toLowerCase group m₁ placeholderRefs := by
  rw [fillPlaceholders_ok_iff]
  unfold RefusedForBoth
  push Not
  refine forall₂_congr fun placeholderRef hmem => ?_
  rw [contentForPlaceholder_ok_iff toLowerCase (hmap placeholderRef hmem)]
  refine and_congr_right fun _ => ?_
  simp only [contentExists_student_iff, not_or, not_and, not_not]
  exact ⟨fun h p program hp => h p hp program, fun h p hp program => h p program hp⟩

theorem teacher_filled_iff :
    ((fillPlaceholders toLowerCase placeholderRefs (buildExamModel m₁ group .teacher)
      .teacher).run.run contentDom).1 = .ok () ↔
      ¬ RefusedForBoth toLowerCase group m₁ placeholderRefs ∧ SecretsShown m₁ placeholderRefs := by
  rw [← student_filled_iff hmap contentDom, fillPlaceholders_ok_iff, fillPlaceholders_ok_iff]
  unfold SecretsShown
  rw [← forall₂_and]
  refine forall₂_congr fun placeholderRef hmem => ?_
  rw [contentForPlaceholder_ok_iff toLowerCase (hmap placeholderRef hmem),
    contentForPlaceholder_ok_iff toLowerCase (hmap placeholderRef hmem)]
  simp only [contentExists_teacher_iff]
  constructor
  · rintro ⟨hgroup, h⟩
    exact ⟨⟨hgroup, fun p hp program hprogram => (h p hp program hprogram).1⟩,
      fun p hp hkind program hprogram => (h p hp program hprogram).2 hkind⟩
  · rintro ⟨⟨hgroup, h⟩, hsecret⟩
    exact ⟨hgroup, fun p hp program hprogram =>
      ⟨h p hp program hprogram, fun hkind => hsecret p hp hkind program hprogram⟩⟩

/-- **When the student's and the teacher's exam are filled or refused together**: exactly when
every secret output placeholder names a line that can be shown, or something is refused for
both. -/
theorem filled_together_iff :
    (((fillPlaceholders toLowerCase placeholderRefs (buildExamModel m₁ group .student)
        .student).run.run contentDom).1 = .ok () ↔
      ((fillPlaceholders toLowerCase placeholderRefs (buildExamModel m₁ group .teacher)
        .teacher).run.run contentDom).1 = .ok ()) ↔
    SecretsShown m₁ placeholderRefs ∨ RefusedForBoth toLowerCase group m₁ placeholderRefs := by
  rw [student_filled_iff hmap, teacher_filled_iff hmap]
  tauto

end

/-- A secret output placeholder may name a line the program has not written. -/
theorem secret_output_out_of_range :
    ¬ ∀ (toLowerCase : JString → JString) (placeholderRefs : List PlaceholderRef) (group : Group)
      (m : JMap ProgramId EvaluatedProgramTemplate) (contentDom : Node),
      (∀ placeholderRef ∈ placeholderRefs, ∀ p, placeholderRef.placeholder = .matrix p →
        m.lookup ⟨p.index⟩ ≠ none) →
      (((fillPlaceholders toLowerCase placeholderRefs (buildExamModel m group .student)
          .student).run.run contentDom).1 = .ok () ↔
        ((fillPlaceholders toLowerCase placeholderRefs (buildExamModel m group .teacher)
          .teacher).run.run contentDom).1 = .ok ()) := by
  intro h
  have hboth := h asciiToLowerCase [⟨some 0, [], .matrix ⟨6, 1, 1, 2, .secretOutput⟩⟩] .A
    (mapToMap [⟨1⟩] fun _ => ⟨⟨[]⟩, ⟨[jstr "one line"], []⟩⟩) Node.lineBreak (by
      intro placeholderRef hmem p hp
      obtain rfl := List.mem_singleton.mp hmem
      obtain rfl := Placeholder.matrix.inj hp
      simp [lookup_mapToMap])
  revert hboth
  decide

/-- The same exam with two lines of output, the second of which is `2`. -/
theorem filled_together_iff_example :
    ((fillPlaceholders asciiToLowerCase [⟨some 0, [], .matrix ⟨6, 1, 1, 2, .secretOutput⟩⟩]
        (buildExamModel (oneProgram [chr '1'] [] [chr '2']) .A .student)
        .student).run.run Node.lineBreak).1 = .ok () ↔
      ((fillPlaceholders asciiToLowerCase [⟨some 0, [], .matrix ⟨6, 1, 1, 2, .secretOutput⟩⟩]
        (buildExamModel (oneProgram [chr '1'] [] [chr '2']) .A .teacher)
        .teacher).run.run Node.lineBreak).1 = .ok () := by
  refine (filled_together_iff ?_ Node.lineBreak).mpr (.inl ?_)
  · intro placeholderRef hmem p hp
    obtain rfl := List.mem_singleton.mp hmem
    obtain rfl := Placeholder.matrix.inj hp
    simp [oneProgram, lookup_mapToMap]
  · intro placeholderRef hmem p hp hkind program hprogram
    obtain rfl := List.mem_singleton.mp hmem
    obtain rfl := Placeholder.matrix.inj hp
    simp only [oneProgram, lookup_mapToMap] at hprogram
    split_ifs at hprogram
    obtain rfl := Option.some.inj hprogram
    exact ⟨[chr '2'], rfl, by decide, by decide⟩

end

end ExamGeneratorNg
