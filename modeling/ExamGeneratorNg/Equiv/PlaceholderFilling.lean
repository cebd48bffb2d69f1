import ExamGeneratorNg.Equiv.ExamTemplateLoading
import ExamGeneratorNg.Equiv.OdfConsumer

/-!
# From the text of a placeholder to what is written into its cell

`code_placeholder_is_its_box`: a code placeholder takes exactly the programs that fit into the box
it draws, and writes them without a loss.  `filledOrReported_iff` says when filling a placeholder
can only end well or with an `ExamTemplateRealizationException`.
-/

namespace ExamGeneratorNg

section

variable (toLowerCase : JString → JString)

/-- The group of the exam is a letter, which in lower case is one of `a` to `z`. -/
def Exam.GroupReadable (exam : Exam) : Prop :=
  ∃ group, Group.fromLowercaseIdentifier (toLowerCase exam.group) = .ok group

/-- The identifier of a group with a letter is read back in lower case. -/
theorem fromLowercaseIdentifier_getIdentifier {group : Group} (h0 : 0 ≤ group.index)
    (h26 : group.index < 26) :
    Group.fromLowercaseIdentifier (asciiToLowerCase group.getIdentifier) = .ok group := by
  have hletters : ∀ index : Fin 26,
      Group.fromLowercaseIdentifier (asciiToLowerCase (Group.getIdentifier ⟨(index : ℕ)⟩))
        = .ok ⟨(index : ℕ)⟩ := by
    decide
  have hindex := hletters ⟨group.index.toNat, by omega⟩
  simp only [Int.toNat_of_nonneg h0] at hindex
  exact hindex

/-- The exams that are generated for a group with a letter are readable. -/
theorem groupReadable_buildExamModel
    (programTemplateMap : JMap ProgramId EvaluatedProgramTemplate) {group : Group}
    (variant : ExamVariant) (h0 : 0 ≤ group.index) (h26 : group.index < 26) :
    (buildExamModel programTemplateMap group variant).GroupReadable asciiToLowerCase :=
  ⟨group, fromLowercaseIdentifier_getIdentifier h0 h26⟩

variable {toLowerCase} {exam : Exam} {variant : ExamVariant}

/-! ### Code placeholders -/

/-- A program as it is shown in the box of the drawing. -/
def Drawing.padded (drawing : Drawing) (source : LineString) : List JString :=
  source.lines ++ List.replicate (drawing.slashes + 1 - source.lines.length) []

/-- The program fits into the box of the drawing: its rows are the backslashes and one more, its
columns the characters of the symbol, the index, the line index, and the dashes. -/
def Drawing.Holds (drawing : Drawing) (source : LineString) : Prop :=
  source.lines.length ≤ drawing.slashes + 1 ∧
    ∀ line ∈ source.lines,
      line.length ≤ (if drawing.lineIndex = none then 3 else 6) + drawing.minuses

theorem fits_placeholder_iff (drawing : Drawing) (source : LineString) :
    drawing.placeholder.Fits source ↔ drawing.Holds source := by
  have hwidth : drawing.placeholder.width
      = (if drawing.lineIndex = none then 3 else 6) + drawing.minuses := by
    obtain ⟨kind, index, lineIndex, minuses, slashes⟩ := drawing
    cases lineIndex <;> rfl
  unfold MatrixPlaceholder.Fits Drawing.Holds
  rw [hwidth]
  rfl

/-- The content of a matrix placeholder whose program is loaded. -/
theorem contentForPlaceholder_of_loaded {placeholder : MatrixPlaceholder} {program : ExamProgram}
    (hgroup : exam.GroupReadable toLowerCase)
    (hprogram : exam.examProgramMap.lookup ⟨placeholder.index⟩ = some program) :
    contentForPlaceholder toLowerCase (.matrix placeholder) exam variant
      = match placeholder.kind with
        | .code => dumpProgram program.source placeholder
        | .output => dumpOutput program.output placeholder
        | .secretOutput => dumpSecretOutput program.output placeholder variant := by
  obtain ⟨group, hgroup⟩ := hgroup
  rw [contentForPlaceholder_matrix, hgroup, hprogram]
  rfl

theorem contentForPlaceholder_code {placeholder : MatrixPlaceholder} {program : ExamProgram}
    (hgroup : exam.GroupReadable toLowerCase) (hkind : placeholder.kind = .code)
    (hprogram : exam.examProgramMap.lookup ⟨placeholder.index⟩ = some program) :
    contentForPlaceholder toLowerCase (.matrix placeholder) exam variant
      = dumpProgram program.source placeholder := by
  rw [contentForPlaceholder_of_loaded hgroup hprogram, hkind]

/-- What is written for the lines shows as the lines, with a line break between any two. -/
theorem shownLines_of_lineStringToParagraph {str : LineString} {styleName : JString}
    {paragraph : Node} (hne : str.lines ≠ [])
    (h : lineStringToParagraph str styleName = .ok paragraph) :
    ∃ nodes, paragraph = Node.paragraph styleName nodes ∧ Odf.shownLines nodes = str.lines ∧
      nodes.countP Odf.isLineBreak + 1 = str.lines.length := by
  obtain ⟨nodesMatrix, hparagraph, hencodes⟩ := lineStringToParagraph_spec str styleName
  rw [hparagraph] at h
  have hshown := Odf.shownLines_join hencodes hne
  refine ⟨_, (Except.ok.inj h).symm, hshown, ?_⟩
  rw [← Odf.length_shownLines, hshown]

/-- **A code placeholder is exactly the box it draws**: it parses to the drawing, filling it ends
well if and only if the program fits, otherwise the cell is left alone, and the paragraph that is
written shows the lines of the program and then empty lines; it is all that the cell then holds. -/
theorem code_placeholder_is_its_box {u : JString} (hu : ∀ c ∈ u, isSpace c = true)
    {drawing : Drawing} (hkind : drawing.kind = .code) {program : ExamProgram}
    (hprogram : exam.examProgramMap.lookup ⟨drawing.index.value⟩ = some program)
    (hgroup : exam.GroupReadable toLowerCase) :
    MatrixPlaceholder.isMatrixPlaceholder (u ++ drawing.print) = true ∧
    ∃ placeholder, MatrixPlaceholder.parse (u ++ drawing.print) = .ok placeholder ∧
      ∀ (wrapperCell : Option ℕ) (styleName : JString) (contentDom : Node),
        ∃ outcome result,
          (fillPlaceholder toLowerCase ⟨wrapperCell, styleName, .matrix placeholder⟩ exam
            variant).run.run contentDom = (outcome, result) ∧
          (outcome = .ok () ↔ drawing.Holds program.source) ∧
          (¬ drawing.Holds program.source →
            (∃ message, outcome = .error (.examTemplateRealizationException message)) ∧
              result = contentDom) ∧
          (drawing.Holds program.source → ∃ nodes,
            result = writeCell contentDom ⟨wrapperCell, styleName, .matrix placeholder⟩
              (Node.paragraph styleName nodes) ∧
            (∀ path (cell : Node), contentDom.subtree? path = some cell →
              contentDom.IsOutermost (fun node => Node.pointedTo wrapperCell node.label) path →
              result.subtree? path = some (.node cell.label [Node.paragraph styleName nodes])) ∧
            nodes.countP Odf.isLineBreak = drawing.slashes ∧
            Odf.shownLines nodes = drawing.padded program.source) := by
  have hparse := parse_drawing drawing hu (.inl rfl : IsLineEnd [])
  rw [List.append_nil] at hparse
  refine ⟨isMatrixPlaceholder_iff.mpr ⟨u, drawing, [], by simp, hu, .inl rfl⟩,
    drawing.placeholder, hparse, fun wrapperCell styleName contentDom => ?_⟩
  have hcontent : contentForPlaceholder toLowerCase (.matrix drawing.placeholder) exam variant
      = dumpProgram program.source drawing.placeholder :=
    contentForPlaceholder_code hgroup hkind hprogram
  have hfits := fits_placeholder_iff drawing program.source
  by_cases hholds : drawing.Holds program.source
  · have hdump : dumpProgram program.source drawing.placeholder
        = .ok ⟨drawing.padded program.source⟩ :=
      dumpProgram_eq_ok.mpr ⟨hkind, hfits.mpr hholds, rfl⟩
    have hlength : (drawing.padded program.source).length = drawing.slashes + 1 := by
      rw [Drawing.padded, List.length_append, List.length_replicate]
      exact Nat.add_sub_of_le hholds.1
    obtain ⟨paragraph, hparagraph, hrun⟩ := @run_fillPlaceholder_ok toLowerCase
      ⟨wrapperCell, styleName, .matrix drawing.placeholder⟩ exam variant _
      (hcontent.trans hdump) contentDom
    obtain ⟨nodes, rfl, hshown, hbreaks⟩ := shownLines_of_lineStringToParagraph
      (List.ne_nil_of_length_eq_add_one hlength) hparagraph
    refine ⟨_, _, hrun, by simp [hholds], fun h => absurd hholds h, fun _ => ?_⟩
    refine ⟨nodes, rfl, fun path cell hcell houtermost => ?_,
      Nat.add_right_cancel (hbreaks.trans hlength), hshown⟩
    exact subtree?_writeCell hcell houtermost _
  · obtain ⟨message, hdump⟩ := dumpProgram_error hkind fun h => hholds (hfits.mp h)
    have hrun := @run_fillPlaceholder_error toLowerCase
      ⟨wrapperCell, styleName, .matrix drawing.placeholder⟩ exam variant _
      (hcontent.trans hdump) contentDom
    exact ⟨_, _, hrun, by simp [hholds], fun _ => ⟨⟨message, rfl⟩, rfl⟩, fun h => absurd h hholds⟩

/-- The drawing `#01--\`, which has room for two lines of five characters. -/
def code01Box : Drawing := { code01 with minuses := 2, slashes := 1 }

/-- A program of one line in a box of two. -/
theorem code_placeholder_is_its_box_example :
    ∃ placeholder nodes result,
      MatrixPlaceholder.parse (jstr " " ++ jstr "#01--\\") = .ok placeholder ∧
      (fillPlaceholder asciiToLowerCase ⟨some 2, jstr "Code", .matrix placeholder⟩
          (buildExamModel (oneProgram (jstr "1") [] []) .A .student) .student).run.run
        smallDocument.root = (.ok (), result) ∧
      result.subtree? [1] = some (.node (.element (some 2) .tableCell [])
        [Node.paragraph (jstr "Code") nodes]) ∧
      nodes.countP Odf.isLineBreak = 1 ∧ Odf.shownLines nodes = [jstr "x = _", []] := by
  have hprogram : (buildExamModel (oneProgram (jstr "1") [] []) .A .student).examProgramMap.lookup
      ⟨code01Box.index.value⟩ = some ⟨⟨[jstr "x = _"]⟩, ⟨[jstr "ok", []]⟩⟩ := by
    rw [lookup_buildExamModel, oneProgram, lookup_mapToMap]
    decide
  obtain ⟨-, placeholder, hparse, hfill⟩ := @code_placeholder_is_its_box asciiToLowerCase
    (buildExamModel (oneProgram (jstr "1") [] []) .A .student) .student (jstr " ") (by decide)
    code01Box rfl _ hprogram
    (groupReadable_buildExamModel _ .student (by decide) (by decide))
  have hholds : code01Box.Holds ⟨[jstr "x = _"]⟩ := ⟨by decide, by decide⟩
  obtain ⟨outcome, result, hrun, hok, -, hwritten⟩ :=
    hfill (some 2) (jstr "Code") smallDocument.root
  obtain ⟨nodes, -, hcell, hbreaks, hshown⟩ := hwritten hholds
  obtain rfl := hok.mpr hholds
  refine ⟨placeholder, nodes, result, hparse, hrun, hcell [1] _ rfl ⟨⟨_, rfl, rfl⟩, ?_⟩, hbreaks,
    hshown⟩
  -- above the cell there is only the body
  rintro q ⟨rest, hrest⟩ hne node hnode
  cases q with
  | nil =>
    obtain rfl := Option.some.inj hnode
    rfl
  | cons i q =>
    obtain ⟨rfl, hnil⟩ := List.cons.inj hrest
    obtain ⟨rfl, -⟩ := List.append_eq_nil_iff.mp hnil
    exact absurd rfl hne

/-! ### Filled or reported -/

/-- Filling ends with an `ExamTemplateRealizationException`. -/
def IsReported (outcome : Except JavaException Unit) : Prop :=
  ∃ message, outcome = .error (.examTemplateRealizationException message)

/-- Filling the placeholder looks at a line of the output of the program. -/
def MatrixPlaceholder.LooksAtLine (placeholder : MatrixPlaceholder) (variant : ExamVariant) :
    Prop :=
  match placeholder.kind with
  | .code => False
  | .output => True
  | .secretOutput => variant = .teacher

variable (toLowerCase)

/-- Filling the placeholder works or is reported: what it stands for is written into its cell, or
there is a message and no other exception.  In the teacher's exam an output line is written if it
exists and reported otherwise, and a program that is not loaded is reported. -/
structure FilledOrReported (exam : Exam) (variant : ExamVariant) (placeholderRef : PlaceholderRef)
    (contentDom : Node) : Prop where
  written_or_reported :
    (∃ content paragraph,
      contentForPlaceholder toLowerCase placeholderRef.placeholder exam variant = .ok content ∧
      lineStringToParagraph content placeholderRef.styleName = .ok paragraph ∧
      (fillPlaceholder toLowerCase placeholderRef exam variant).run.run contentDom
        = (.ok (), writeCell contentDom placeholderRef paragraph)) ∨
    IsReported ((fillPlaceholder toLowerCase placeholderRef exam variant).run.run contentDom).1
  line_written : ∀ placeholder program line, variant = .teacher →
    placeholderRef.placeholder = .matrix placeholder → placeholder.kind ≠ .code →
    exam.examProgramMap.lookup ⟨placeholder.index⟩ = some program →
    1 ≤ placeholder.lineIndex → program.output.lines[placeholder.lineIndex - 1]? = some line →
    ∃ paragraph, lineStringToParagraph ⟨[line]⟩ placeholderRef.styleName = .ok paragraph ∧
      (fillPlaceholder toLowerCase placeholderRef exam variant).run.run contentDom
        = (.ok (), writeCell contentDom placeholderRef paragraph)
  line_reported : ∀ placeholder program, variant = .teacher →
    placeholderRef.placeholder = .matrix placeholder → placeholder.kind ≠ .code →
    exam.examProgramMap.lookup ⟨placeholder.index⟩ = some program →
    (IsReported ((fillPlaceholder toLowerCase placeholderRef exam variant).run.run contentDom).1 ↔
      placeholder.lineIndex < 1 ∨ program.output.lines.length < placeholder.lineIndex)
  program_reported : ∀ placeholder, placeholderRef.placeholder = .matrix placeholder →
    exam.examProgramMap.lookup ⟨placeholder.index⟩ = none →
    IsReported ((fillPlaceholder toLowerCase placeholderRef exam variant).run.run contentDom).1

/-- The group of the exam can be read, the program of a matrix placeholder is loaded, and the line
index is not 0 where an output line is looked at. -/
def Fillable (exam : Exam) (variant : ExamVariant) (placeholder : Placeholder) : Prop :=
  exam.GroupReadable toLowerCase ∧ ∀ p, placeholder = .matrix p →
    exam.examProgramMap.lookup ⟨p.index⟩ ≠ none ∧ (p.LooksAtLine variant → p.lineIndex ≠ 0)

/-- The outcome of filling is that of computing the content. -/
theorem fillPlaceholder_outcome (placeholderRef : PlaceholderRef) (contentDom : Node) :
    ((fillPlaceholder toLowerCase placeholderRef exam variant).run.run contentDom).1
      = (contentForPlaceholder toLowerCase placeholderRef.placeholder exam variant).map
          fun _ => () := by
  cases hcontent : contentForPlaceholder toLowerCase placeholderRef.placeholder exam variant with
  | error e =>
    rw [run_fillPlaceholder_error toLowerCase hcontent]
    rfl
  | ok content =>
    obtain ⟨paragraph, -, hrun⟩ := run_fillPlaceholder_ok toLowerCase hcontent contentDom
    rw [hrun]
    rfl

variable {toLowerCase}

theorem fromLowercaseIdentifier_error {id : JString}
    (h : ¬ ∃ group, Group.fromLowercaseIdentifier id = .ok group) :
    Group.fromLowercaseIdentifier id = .error .illegalArgumentException := by
  unfold Group.fromLowercaseIdentifier at h ⊢
  split at h
  · split_ifs at h with hlower
    · exact absurd ⟨_, rfl⟩ h
    · exact if_neg hlower
  · rfl

/-- Whatever the placeholder, a group that cannot be read is refused first. -/
theorem contentForPlaceholder_of_not_groupReadable (hgroup : ¬ exam.GroupReadable toLowerCase)
    (placeholder : Placeholder) :
    contentForPlaceholder toLowerCase placeholder exam variant
      = .error .illegalArgumentException := by
  have herror := fromLowercaseIdentifier_error hgroup
  cases placeholder with
  | matrix placeholder =>
    rw [contentForPlaceholder_matrix, herror]
    rfl
  | line placeholder =>
    rw [contentForPlaceholder_line, herror]
    rfl

theorem contentForPlaceholder_of_not_loaded (hgroup : exam.GroupReadable toLowerCase)
    {placeholder : MatrixPlaceholder}
    (hprogram : exam.examProgramMap.lookup ⟨placeholder.index⟩ = none) :
    contentForPlaceholder toLowerCase (.matrix placeholder) exam variant
      = .error .nullPointerException := by
  obtain ⟨group, hgroup⟩ := hgroup
  rw [contentForPlaceholder_matrix, hgroup, hprogram]
  rfl

theorem contentForPlaceholder_of_looksAtLine (hgroup : exam.GroupReadable toLowerCase)
    {placeholder : MatrixPlaceholder} {program : ExamProgram}
    (hprogram : exam.examProgramMap.lookup ⟨placeholder.index⟩ = some program)
    (hlooks : placeholder.LooksAtLine variant) :
    contentForPlaceholder toLowerCase (.matrix placeholder) exam variant
      = dumpOutputLineString program.output placeholder := by
  rw [contentForPlaceholder_of_loaded hgroup hprogram]
  unfold MatrixPlaceholder.LooksAtLine at hlooks
  cases hkind : placeholder.kind with
  | code =>
    rw [hkind] at hlooks
    exact absurd hlooks not_false
  | output => simp only [hkind, dumpOutput, checkArgument_bind, decide_true, if_true]
  | secretOutput =>
    rw [hkind] at hlooks
    obtain rfl : variant = .teacher := hlooks
    simp only [hkind, dumpSecretOutput, checkArgument_bind, decide_true, if_true]

/-- Where no output line is looked at, there is a content or the program is refused. -/
theorem contentForPlaceholder_of_not_looksAtLine (hgroup : exam.GroupReadable toLowerCase)
    {placeholder : MatrixPlaceholder} {program : ExamProgram}
    (hprogram : exam.examProgramMap.lookup ⟨placeholder.index⟩ = some program)
    (hlooks : ¬ placeholder.LooksAtLine variant) :
    (∃ content, contentForPlaceholder toLowerCase (.matrix placeholder) exam variant
        = .ok content) ∨
      ∃ message, contentForPlaceholder toLowerCase (.matrix placeholder) exam variant
        = .error (.examTemplateRealizationException message) := by
  cases hkind : placeholder.kind with
  | code =>
    rw [contentForPlaceholder_code hgroup hkind hprogram]
    by_cases hfits : placeholder.Fits program.source
    · exact .inl ⟨_, dumpProgram_eq_ok.mpr ⟨hkind, hfits, rfl⟩⟩
    · exact .inr (dumpProgram_error hkind hfits)
  | output =>
    unfold MatrixPlaceholder.LooksAtLine at hlooks
    rw [hkind] at hlooks
    exact absurd trivial hlooks
  | secretOutput =>
    unfold MatrixPlaceholder.LooksAtLine at hlooks
    rw [hkind] at hlooks
    cases variant with
    | teacher => exact absurd rfl hlooks
    | student =>
      rw [contentForPlaceholder_of_loaded hgroup hprogram]
      simp only [hkind, dumpSecretOutput, checkArgument_bind, decide_true, if_true]
      refine .inl (fromSingleLine_ok_iff.mpr ?_)
      rw [nCopiesOfChar_eq]
      exact ⟨fun h => absurd (List.eq_of_mem_replicate h) (by decide),
        fun h => absurd (List.eq_of_mem_replicate h) (by decide)⟩

/-- The line an output placeholder names, if it exists. -/
theorem dumpOutputLineString_ok {output : LineString} {placeholder : MatrixPlaceholder}
    {line : JString} (hindex : 1 ≤ placeholder.lineIndex)
    (hline : output.lines[placeholder.lineIndex - 1]? = some line)
    (hclean : chr '\r' ∉ line ∧ chr '\n' ∉ line) :
    dumpOutputLineString output placeholder = .ok ⟨[line]⟩ := by
  rw [dumpOutputLineString_eq, lineNumber, if_neg (by omega), hline]
  unfold LineString.fromSingleLine
  simp [checkArgument_bind, hclean.1, hclean.2, pure, Except.pure]

/-- A line number from 1 on is refused in the right way if the output is too short. -/
theorem dumpOutputLineString_error {output : LineString} {placeholder : MatrixPlaceholder}
    (hindex : output.lines.length < placeholder.lineIndex) :
    dumpOutputLineString output placeholder = .error (.examTemplateRealizationException
      (placeholder.repr ++ jstr ": Index out of bounds of program output")) := by
  have hnonzero : placeholder.lineIndex ≠ 0 := by omega
  rw [dumpOutputLineString_eq, lineNumber, if_neg hnonzero, List.getElem?_eq_none (by omega),
    if_neg hnonzero]

/-- The line number 0 passes the check that is made and is then out of bounds. -/
theorem dumpOutputLineString_zero {output : LineString} {placeholder : MatrixPlaceholder}
    (hindex : placeholder.lineIndex = 0) :
    dumpOutputLineString output placeholder = .error .indexOutOfBoundsException := by
  rw [dumpOutputLineString_eq, lineNumber, if_pos hindex, if_pos hindex]

section

variable {placeholderRef : PlaceholderRef} {contentDom : Node}

/-- An exception that is not an `ExamTemplateRealizationException` is neither allowed end. -/
theorem not_filledOrReported {e : JavaException}
    (he : ∀ message, e ≠ .examTemplateRealizationException message)
    (hcontent : contentForPlaceholder toLowerCase placeholderRef.placeholder exam variant
      = .error e) :
    ¬ FilledOrReported toLowerCase exam variant placeholderRef contentDom := by
  intro h
  rcases h.written_or_reported with ⟨content, -, hok, -⟩ | hreported
  · rw [hcontent] at hok
    cases hok
  · rw [fillPlaceholder_outcome, hcontent] at hreported
    obtain ⟨message, hmessage⟩ := hreported
    exact he message (Except.error.inj hmessage)

theorem fillable_of_filledOrReported
    (h : FilledOrReported toLowerCase exam variant placeholderRef contentDom) :
    Fillable toLowerCase exam variant placeholderRef.placeholder := by
  obtain ⟨wrapperCell, styleName, placeholder⟩ := placeholderRef
  have hgroup : exam.GroupReadable toLowerCase := by
    by_contra hgroup
    exact not_filledOrReported (by simp)
      (contentForPlaceholder_of_not_groupReadable hgroup placeholder) h
  refine ⟨hgroup, ?_⟩
  rintro p rfl
  have hloaded : exam.examProgramMap.lookup ⟨p.index⟩ ≠ none := fun hprogram =>
    not_filledOrReported (by simp) (contentForPlaceholder_of_not_loaded hgroup hprogram) h
  obtain ⟨program, hprogram⟩ := Option.ne_none_iff_exists'.mp hloaded
  refine ⟨hloaded, fun hlooks hzero => ?_⟩
  have hcontent := contentForPlaceholder_of_looksAtLine hgroup hprogram hlooks
  rw [dumpOutputLineString_zero hzero] at hcontent
  exact not_filledOrReported (by simp) hcontent h

/-- Everything but a code placeholder looks at a line for the teacher's exam. -/
theorem looksAtLine_teacher {placeholder : MatrixPlaceholder} (hkind : placeholder.kind ≠ .code) :
    placeholder.LooksAtLine .teacher := by
  unfold MatrixPlaceholder.LooksAtLine
  cases h : placeholder.kind with
  | code => exact absurd h hkind
  | output => trivial
  | secretOutput => rfl

/-- The texts of a line placeholder have no line break. -/
theorem contentForPlaceholder_line_ok (hgroup : exam.GroupReadable toLowerCase)
    (placeholder : LinePlaceholder) :
    ∃ content, contentForPlaceholder toLowerCase (.line placeholder) exam variant
      = .ok content := by
  obtain ⟨group, hgroup⟩ := hgroup
  obtain ⟨width, lineKind⟩ := placeholder
  rw [contentForPlaceholder_line, hgroup]
  cases lineKind with
  | group =>
    show ∃ content, LineString.fromSingleLine group.getIdentifier = .ok content
    exact fromSingleLine_ok_iff.mpr (getIdentifier_of_fromLowercaseIdentifier hgroup)
  | kind =>
    show ∃ content, LineString.fromSingleLine variant.name = .ok content
    refine fromSingleLine_ok_iff.mpr ?_
    cases variant <;> decide

variable (hclean : ∀ programId program, exam.examProgramMap.lookup programId = some program →
  ∀ line ∈ program.output.lines, chr '\r' ∉ line ∧ chr '\n' ∉ line)

include hclean

theorem content_of_fillable {placeholder : Placeholder}
    (h : Fillable toLowerCase exam variant placeholder) :
    (∃ content, contentForPlaceholder toLowerCase placeholder exam variant = .ok content) ∨
      ∃ message, contentForPlaceholder toLowerCase placeholder exam variant
        = .error (.examTemplateRealizationException message) := by
  obtain ⟨hgroup, hmatrix⟩ := h
  cases placeholder with
  | line placeholder => exact .inl (contentForPlaceholder_line_ok hgroup placeholder)
  | matrix placeholder =>
    obtain ⟨hloaded, hindex⟩ := hmatrix placeholder rfl
    obtain ⟨program, hprogram⟩ := Option.ne_none_iff_exists'.mp hloaded
    by_cases hlooks : placeholder.LooksAtLine variant
    · rw [contentForPlaceholder_of_looksAtLine hgroup hprogram hlooks]
      have hpos : 1 ≤ placeholder.lineIndex := Nat.one_le_iff_ne_zero.mpr (hindex hlooks)
      by_cases hlong : program.output.lines.length < placeholder.lineIndex
      · exact .inr ⟨_, dumpOutputLineString_error hlong⟩
      · have hline := List.getElem?_eq_getElem
          (show placeholder.lineIndex - 1 < program.output.lines.length by omega)
        exact .inl ⟨_, dumpOutputLineString_ok hpos hline
          (hclean _ _ hprogram _ (List.mem_of_getElem? hline))⟩
    · exact contentForPlaceholder_of_not_looksAtLine hgroup hprogram hlooks

/-- **When filling works or is reported**: exactly when the group can be read, the program is
loaded, and no output line is looked at under the index 0. -/
theorem filledOrReported_iff :
    FilledOrReported toLowerCase exam variant placeholderRef contentDom ↔
      Fillable toLowerCase exam variant placeholderRef.placeholder := by
  refine ⟨fillable_of_filledOrReported, fun h => ⟨?_, ?_, ?_, ?_⟩⟩
  · rcases content_of_fillable hclean h with ⟨content, hcontent⟩ | ⟨message, hcontent⟩
    · obtain ⟨paragraph, hparagraph, hrun⟩ := run_fillPlaceholder_ok toLowerCase hcontent contentDom
      exact .inl ⟨content, paragraph, hcontent, hparagraph, hrun⟩
    · rw [fillPlaceholder_outcome, hcontent]
      exact .inr ⟨message, rfl⟩
  · rintro placeholder program line rfl hplaceholder hkind hprogram hindex hline
    have hcontent := contentForPlaceholder_of_looksAtLine h.1 hprogram (looksAtLine_teacher hkind)
    rw [dumpOutputLineString_ok hindex hline
      (hclean _ _ hprogram _ (List.mem_of_getElem? hline)), ← hplaceholder] at hcontent
    exact run_fillPlaceholder_ok toLowerCase hcontent contentDom
  · rintro placeholder program rfl hplaceholder hkind hprogram
    have hlooks := looksAtLine_teacher hkind
    have hpos := (h.2 placeholder hplaceholder).2 hlooks
    have hcontent := contentForPlaceholder_of_looksAtLine h.1 hprogram hlooks
    rw [fillPlaceholder_outcome, hplaceholder, hcontent]
    by_cases hlong : program.output.lines.length < placeholder.lineIndex
    · rw [dumpOutputLineString_error hlong]
      exact ⟨fun _ => .inr hlong, fun _ => ⟨_, rfl⟩⟩
    · have hline := List.getElem?_eq_getElem
        (show placeholder.lineIndex - 1 < program.output.lines.length by omega)
      rw [dumpOutputLineString_ok (by omega) hline
        (hclean _ _ hprogram _ (List.mem_of_getElem? hline))]
      constructor
      · rintro ⟨message, hmessage⟩
        cases hmessage
      · rintro (hzero | hlong')
        · omega
        · exact absurd hlong' hlong
  · intro placeholder hplaceholder hprogram
    exact absurd hprogram (h.2 placeholder hplaceholder).1

end

end

/-- An exam of group A with one program, which has the index 1. -/
def examOf (program : ExamProgram) : Exam where
  group := Group.A.getIdentifier
  examProgramMap := mapToMap [⟨1⟩] fun _ => program

theorem groupReadable_examOf (program : ExamProgram) :
    (examOf program).GroupReadable asciiToLowerCase :=
  ⟨.A, fromLowercaseIdentifier_getIdentifier (by decide) (by decide)⟩

theorem lookup_examOf (program : ExamProgram) :
    (examOf program).examProgramMap.lookup ⟨1⟩ = some program := by
  simp [examOf, lookup_mapToMap]

theorem clean_examOf_ok : ∀ programId program,
    (examOf ⟨⟨[]⟩, ⟨[jstr "ok"]⟩⟩).examProgramMap.lookup programId = some program →
    ∀ line ∈ program.output.lines, chr '\r' ∉ line ∧ chr '\n' ∉ line := by
  intro programId program hprogram
  simp only [examOf, lookup_mapToMap] at hprogram
  split_ifs at hprogram
  obtain rfl := Option.some.inj hprogram
  decide

/-- The second line of output, where there is only one, is reported. -/
theorem filledOrReported_iff_example :
    FilledOrReported asciiToLowerCase (examOf ⟨⟨[]⟩, ⟨[jstr "ok"]⟩⟩) .teacher
      ⟨some 0, [], .matrix ⟨6, 1, 1, 2, .output⟩⟩ Node.lineBreak := by
  have hfillable : Fillable asciiToLowerCase (examOf ⟨⟨[]⟩, ⟨[jstr "ok"]⟩⟩) .teacher
      (.matrix ⟨6, 1, 1, 2, .output⟩) := by
    refine ⟨groupReadable_examOf _, fun p hp => ?_⟩
    obtain rfl := Placeholder.matrix.inj hp
    rw [lookup_examOf]
    exact ⟨Option.some_ne_none _, fun _ => Nat.succ_ne_zero 1⟩
  exact (@filledOrReported_iff asciiToLowerCase (examOf ⟨⟨[]⟩, ⟨[jstr "ok"]⟩⟩) .teacher
    ⟨some 0, [], .matrix ⟨6, 1, 1, 2, .output⟩⟩ Node.lineBreak clean_examOf_ok).mpr hfillable

/-- The placeholder `!01` has no line index, which counts as 0. -/
theorem output_without_line_index_throws :
    ¬ ∀ (exam : Exam) (variant : ExamVariant) (text : JString) (placeholder : MatrixPlaceholder),
      (∀ programId program, exam.examProgramMap.lookup programId = some program →
        ∀ line ∈ program.output.lines, chr '\r' ∉ line ∧ chr '\n' ∉ line) →
      MatrixPlaceholder.parse text = .ok placeholder →
      ∀ wrapperCell styleName contentDom, FilledOrReported asciiToLowerCase exam variant
        ⟨wrapperCell, styleName, .matrix placeholder⟩ contentDom := by
  intro h
  have hfilled := h (examOf ⟨⟨[]⟩, ⟨[jstr "ok"]⟩⟩) .teacher (jstr "!01") ⟨3, 1, 1, 0, .output⟩
    clean_examOf_ok (by decide) (some 0) [] Node.lineBreak
  have hthrows : ((fillPlaceholder asciiToLowerCase
      ⟨some 0, [], .matrix ⟨3, 1, 1, 0, .output⟩⟩ (examOf ⟨⟨[]⟩, ⟨[jstr "ok"]⟩⟩)
        .teacher).run.run Node.lineBreak).1 = .error .indexOutOfBoundsException := by decide
  rcases hfilled.written_or_reported with ⟨content, paragraph, -, -, hrun⟩ | ⟨message, hmessage⟩
  · rw [hrun] at hthrows
    cases hthrows
  · rw [hthrows] at hmessage
    cases hmessage

end ExamGeneratorNg
