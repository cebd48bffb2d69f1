import ExamGeneratorNg.Equiv.PlaceholderFilling
import ExamGeneratorNg.Equiv.ExamTemplateLoading
import ExamGeneratorNg.Equiv.CommandLine

/-!
# What the exams show

Every exam that is saved, by the command line or at any time by a `ProjectTask`, is the template
with each placeholder replaced by what it stands for, and nothing else changed
(`savedExam_isExam`).  What students get does not depend on what they must not see
(`studentExams_eq`): not on answers, hidden lines or secret outputs, nor on the way the exams are
generated and the order in which the tasks end.
-/

namespace ExamGeneratorNg

open RoseTree

/-! ### Where a saved document comes from -/

/-- What has been done on one of the two ways of generating exams, up to the end or up to some
time. -/
inductive IsDone (env : Environment) : List Effect → Prop
  | commandLine : IsDone env (generateAllExamVariants env).effects
  | projectTask {s : TaskState} (hreachable : (projectTask env).Reachable newProjectTask s) :
      IsDone env s.world.effects

/-- The map holds all programs of the workspace, with what they have written for the group. -/
structure IsComplete (env : Environment) (group : Group)
    (programTemplateMap : JMap ProgramId EvaluatedProgramTemplate) : Prop where
  isEvaluated : IsEvaluated env group programTemplateMap
  loaded : ∀ programId programTemplate, Loaded env programId programTemplate →
    ∃ evaluated, programTemplateMap.lookup programId = some evaluated

/-- The document `generateExamVariantForGroup` makes. -/
def IsFilled (env : Environment) (programTemplateMap : JMap ProgramId EvaluatedProgramTemplate)
    (group : Group) (variant : ExamVariant) (contentDom : Node) : Prop :=
  ∃ examTemplate placeholderRefs, env.loadDocument = .ok examTemplate
    ∧ findPlaceholders examTemplate = .ok placeholderRefs
    ∧ (fillPlaceholders env.toLowerCase placeholderRefs
        (buildExamModel programTemplateMap group variant) variant).run.run examTemplate
      = (.ok (), contentDom)

section

variable {env : Environment} {effects : List Effect} {group : Group} {variant : ExamVariant}
  {fileName : JString} {contentDom : Node} {m : JMap ProgramId EvaluatedProgramTemplate}

theorem isFilled_of_mem_effects
    (h : .document fileName contentDom
      ∈ (generateExamVariantForGroup env m group variant).effects) :
    fileName = documentName group variant ∧ IsFilled env m group variant contentDom := by
  obtain ⟨examTemplate, hload, h⟩ := document_of_bind (onlyDiagnostics_ofExcept _) h
  obtain ⟨placeholderRefs, hfind, h⟩ := document_of_bind (onlyDiagnostics_ofExcept _) h
  obtain ⟨_, hfilled, h⟩ := document_of_bind (onlyDiagnostics_ofExcept _) h
  obtain ⟨_, -, h⟩ := document_of_bind (onlyDiagnostics_ofExcept _) h
  rw [Effectful.effects_perform, List.mem_singleton] at h
  cases h
  exact ⟨rfl, examTemplate, placeholderRefs, result_of_wrapException hload, hfind,
    Prod.ext hfilled rfl⟩

/-- A document of a group is the exam for students or the one for teachers. -/
theorem exists_variant (h : .document fileName contentDom
      ∈ (generateExamVariantsForGroup env m group).effects) :
    ∃ variant, fileName = documentName group variant ∧ IsFilled env m group variant contentDom := by
  rcases (Effectful.mem_effects_bind _ _ _).mp h with h | ⟨_, -, h⟩
  · rw [Effectful.effects_perform, List.mem_singleton] at h
    cases h
  · rw [Effectful.effects_wrapException, Effectful.mem_effects_bind] at h
    rcases h with h | ⟨_, -, h⟩
    · exact ⟨.student, isFilled_of_mem_effects h⟩
    · exact ⟨.teacher, isFilled_of_mem_effects h⟩

/-- The exam is made from all programs of the workspace. -/
def IsMade (env : Environment) (fileName : JString) (contentDom : Node) : Prop :=
  ∃ group variant m, IsGroup group ∧ IsComplete env group m
    ∧ fileName = documentName group variant ∧ IsFilled env m group variant contentDom

section

variable {programTemplates : JMap ProgramId ProgramTemplate}
  {outputs : JMap ProgramId (JMap Group ProgramOutput)}

theorem isMade_generateAllExamVariantsOfGroup
    (hload : loadProgramTemplates env = .ok programTemplates) (houtputs : IsOutputs env outputs)
    (hgroup : IsGroup group) (h : .document fileName contentDom
      ∈ (generateAllExamVariantsOfGroup env programTemplates outputs group).effects) :
    IsMade env fileName contentDom := by
  obtain ⟨groupOutputs, hextract, h⟩ :=
    document_of_bind (onlyDiagnostics_extractGroupOutputs group) h
  obtain ⟨evaluated, hevaluated, h⟩ := document_of_bind (onlyDiagnostics_evaluated _) h
  obtain ⟨_, -, h⟩ := document_of_bind onlyDiagnostics_generateFilesWithProgramsOutputs h
  have hright := isEvaluated_of_extractGroupOutputs hload houtputs hgroup hextract
    (lookup_evaluated hevaluated)
  obtain ⟨variant, hname, hfilled⟩ := exists_variant h
  refine ⟨group, variant, evaluated, hgroup, ⟨hright, ?_⟩, hname, hfilled⟩
  intro programId programTemplate hloaded
  obtain ⟨processOutput, hprocess⟩ :=
    houtputs.programsRun programId programTemplate group hloaded hgroup
  exact ⟨_, (hright _ _).mpr ⟨programTemplate, processOutput, hloaded, hprocess, rfl⟩⟩

end

theorem isMade_commandLine
    (h : .document fileName contentDom ∈ (generateAllExamVariants env).effects) :
    IsMade env fileName contentDom := by
  obtain ⟨programTemplates, hload, h⟩ := document_of_bind (onlyDiagnostics_ofExcept _) h
  obtain ⟨compilerOutputs, hcompile, h⟩ :=
    document_of_bind (onlyDiagnostics_compileProgramTemplates _ _) h
  obtain ⟨processOutputs, hrun, h⟩ := document_of_bind (onlyDiagnostics_runPrograms _) h
  have houtputs := isOutputs_extractStandardOutputs
    (isTable_runPrograms (isTable_compileProgramTemplates hload hcompile) hrun)
  -- the loop over the two groups
  rcases (Effectful.mem_effects_bind _ _ _).mp h with h | ⟨_, -, h⟩
  · exact isMade_generateAllExamVariantsOfGroup hload houtputs (.inl rfl) h
  · rcases (Effectful.mem_effects_bind _ _ _).mp h with h | ⟨_, -, h⟩
    · exact isMade_generateAllExamVariantsOfGroup hload houtputs (.inr rfl) h
    · cases h

/-- Only the tasks that make exams save documents. -/
theorem isMade_runSupplier {supplier : Supplier} (hdue : Due env supplier)
    (h : .document fileName contentDom ∈ (runSupplier env supplier).effects) :
    IsMade env fileName contentDom := by
  have hsilent : ¬ OnlyDiagnostics (runSupplier env supplier) := by
    intro honly
    obtain ⟨diagnostic, heq⟩ := honly _ h
    cases heq
  cases supplier with
  | loadProgramTemplates => exact absurd (onlyDiagnostics_ofExcept _) hsilent
  | compileProgramTemplate programId programTemplate group =>
    exact absurd (onlyDiagnostics_compileProgramTemplate programId programTemplate group) hsilent
  | runProgram programId compilerOutput group =>
    exact absurd (onlyDiagnostics_runProgram programId compilerOutput group) hsilent
  | generateExamVariants group programPipelineMap processOutputs =>
    obtain ⟨hgroup, hpipelines, hprocess⟩ := hdue
    obtain ⟨evaluated, hevaluated, h⟩ := document_of_bind (onlyDiagnostics_ofExcept _) h
    have hright := isEvaluated_evaluatedProgramTemplateMap hpipelines hprocess hevaluated
    obtain ⟨variant, hname, hfilled⟩ := exists_variant h
    refine ⟨group, variant, evaluated, hgroup, ⟨hright, ?_⟩, hname, hfilled⟩
    intro programId programTemplate hloaded
    obtain ⟨processOutput, hlookup⟩ := hprocess.2 programId programTemplate hloaded
    exact ⟨_, (hright _ _).mpr
      ⟨programTemplate, processOutput, hloaded, (hprocess.1 _ _).mp hlookup, rfl⟩⟩

theorem IsDone.isMade (hdone : IsDone env effects)
    (h : .document fileName contentDom ∈ effects) : IsMade env fileName contentDom := by
  cases hdone with
  | commandLine => exact isMade_commandLine h
  | projectTask hreachable =>
    obtain ⟨past, hpast⟩ := hreachable.history
    have haccount := account_of_history hpast
    rw [haccount.effects, List.mem_flatMap] at h
    obtain ⟨supplier, hended, h⟩ := h
    exact isMade_runSupplier (haccount.due supplier hended) h

end

/-! ### What stands in the place of a placeholder -/

/-- What a placeholder stands for in an exam of a group, line by line. -/
inductive IsContent (env : Environment) (group : Group) (variant : ExamVariant) :
    Placeholder → List JString → Prop
  /-- the program as the readers of the exam get to see it, in the box of the placeholder -/
  | code {placeholder : MatrixPlaceholder} {programTemplate : ProgramTemplate}
      (hkind : placeholder.kind = .code)
      (hloaded : Loaded env ⟨placeholder.index⟩ programTemplate)
      (hfits : placeholder.Fits (buildExamProgramSource programTemplate group variant)) :
      IsContent env group variant (.matrix placeholder)
        (placeholder.pad (buildExamProgramSource programTemplate group variant).lines)
  /-- a line that the program has written for the group -/
  | outputLine {placeholder : MatrixPlaceholder} {processOutput : ProcessOutput} {line : JString}
      (hlooks : placeholder.LooksAtLine variant)
      (hprocess : IsProcessOutput env ⟨placeholder.index⟩ group (some processOutput))
      (hline : lineNumber processOutput.standardOutput placeholder.lineIndex = some line) :
      IsContent env group variant (.matrix placeholder) [line]
  /-- a line to be filled in by students -/
  | secretLine {placeholder : MatrixPlaceholder} (hkind : placeholder.kind = .secretOutput)
      (hvariant : variant = .student) :
      IsContent env group variant (.matrix placeholder)
        [List.replicate placeholder.width (chr '_')]
  | group {placeholder : LinePlaceholder} (hkind : placeholder.kind = .group) :
      IsContent env group variant (.line placeholder) [group.getIdentifier]
  | kind {placeholder : LinePlaceholder} (hkind : placeholder.kind = .kind) :
      IsContent env group variant (.line placeholder) [variant.name]

/-- The letters of the two groups are put into lower case as in every locale. -/
def LowersLetters (env : Environment) : Prop :=
  ∀ group, IsGroup group →
    env.toLowerCase group.getIdentifier = asciiToLowerCase group.getIdentifier

section

variable {env : Environment} {group : Group} {variant : ExamVariant}
  {m : JMap ProgramId EvaluatedProgramTemplate} {content : LineString}

theorem lines_of_fromSingleLine {line : JString}
    (h : LineString.fromSingleLine line = .ok content) : content.lines = [line] := by
  unfold LineString.fromSingleLine at h
  rw [checkArgument_bind, checkArgument_bind] at h
  split_ifs at h
  rw [← Except.ok.inj h]

theorem lines_of_dumpOutputLineString {output : LineString} {placeholder : MatrixPlaceholder}
    (h : dumpOutputLineString output placeholder = .ok content) :
    ∃ line, lineNumber output.lines placeholder.lineIndex = some line ∧ content.lines = [line] := by
  rw [dumpOutputLineString_eq] at h
  cases hline : lineNumber output.lines placeholder.lineIndex with
  | none =>
    rw [hline] at h
    cases h
  | some line =>
    rw [hline] at h
    exact ⟨line, rfl, lines_of_fromSingleLine h⟩

theorem readsGroup (hlower : LowersLetters env) (hgroup : IsGroup group) :
    Group.fromLowercaseIdentifier (env.toLowerCase group.getIdentifier) = .ok group := by
  rw [hlower group hgroup]
  rcases hgroup with rfl | rfl
  · exact fromLowercaseIdentifier_getIdentifier (by decide) (by decide)
  · exact fromLowercaseIdentifier_getIdentifier (by decide) (by decide)

/-- What is written for a matrix placeholder, if there is no exception. -/
theorem isContent_matrix (hgroup : (buildExamModel m group variant).GroupReadable env.toLowerCase)
    (hm : IsEvaluated env group m) {placeholder : MatrixPlaceholder}
    (h : contentForPlaceholder env.toLowerCase (.matrix placeholder)
      (buildExamModel m group variant) variant = .ok content) :
    IsContent env group variant (.matrix placeholder) content.lines := by
  cases hlookup : m.lookup ⟨placeholder.index⟩ with
  | none =>
    have hnone : (buildExamModel m group variant).examProgramMap.lookup ⟨placeholder.index⟩
        = none := by
      rw [lookup_buildExamModel, hlookup]
      rfl
    rw [contentForPlaceholder_of_not_loaded hgroup hnone] at h
    cases h
  | some evaluated =>
    obtain ⟨programTemplate, processOutput, hloaded, hprocess, rfl⟩ := (hm _ _).mp hlookup
    have hprogram : (buildExamModel m group variant).examProgramMap.lookup ⟨placeholder.index⟩
        = some (buildExamProgram ⟨programTemplate, .ofProcessOutput processOutput⟩ group
          variant) := by
      rw [lookup_buildExamModel, hlookup]
      rfl
    by_cases hlooks : placeholder.LooksAtLine variant
    · rw [contentForPlaceholder_of_looksAtLine hgroup hprogram hlooks] at h
      obtain ⟨line, hline, hcontent⟩ := lines_of_dumpOutputLineString h
      rw [hcontent]
      exact .outputLine hlooks hprocess hline
    · rw [contentForPlaceholder_of_loaded hgroup hprogram] at h
      unfold MatrixPlaceholder.LooksAtLine at hlooks
      cases hkind : placeholder.kind with
      | code =>
        simp only [hkind] at h
        obtain ⟨-, hfits, rfl⟩ := dumpProgram_eq_ok.mp h
        exact .code hkind hloaded hfits
      | output =>
        rw [hkind] at hlooks
        exact absurd trivial hlooks
      | secretOutput =>
        rw [hkind] at hlooks
        -- a line is looked at for teachers
        have hvariant : variant = .student := by
          cases variant with
          | student => rfl
          | teacher => exact absurd rfl hlooks
        subst hvariant
        simp only [hkind, dumpSecretOutput, checkArgument_bind, decide_true, if_true] at h
        rw [lines_of_fromSingleLine h, nCopiesOfChar_eq]
        exact .secretLine hkind rfl

theorem isContent_of_contentForPlaceholder (hlower : LowersLetters env) (hgroup : IsGroup group)
    (hm : IsEvaluated env group m) {placeholder : Placeholder}
    (h : contentForPlaceholder env.toLowerCase placeholder (buildExamModel m group variant) variant
      = .ok content) : IsContent env group variant placeholder content.lines := by
  have hread : Group.fromLowercaseIdentifier
      (env.toLowerCase (buildExamModel m group variant).group) = .ok group :=
    readsGroup hlower hgroup
  cases placeholder with
  | matrix placeholder => exact isContent_matrix ⟨group, hread⟩ hm h
  | line placeholder =>
    rw [contentForPlaceholder_line, hread] at h
    cases hkind : placeholder.kind with
    | group =>
      simp only [hkind] at h
      rw [lines_of_fromSingleLine h]
      exact .group hkind
    | kind =>
      simp only [hkind] at h
      rw [lines_of_fromSingleLine h]
      exact .kind hkind

end

/-! ### Exams -/

/-- The document is the template with each placeholder replaced by what it stands for in the exam
of the group. -/
structure IsExam (env : Environment) (group : Group) (variant : ExamVariant)
    (template contentDom : Node) : Prop where
  /-- everything outside of the cells of placeholders is as it was -/
  filled : FilledAt (template.outermostPaths isPlaceholderCell) template contentDom
  /-- a cell holds one paragraph, whose nodes, read verbatim, are the lines that its placeholder
  stands for -/
  contents : ∀ path cell, template.IsOutermost isPlaceholderCell path →
    template.subtree? path = some cell →
    ∃ placeholder lines styleName nodes,
      parsePlaceholder (Node.getTextContent cell) = .ok placeholder
      ∧ IsContent env group variant placeholder lines
      ∧ contentDom.subtree? path = some (.node cell.label [Node.paragraph styleName nodes])
      ∧ Odf.shownLines nodes = lines

theorem height_pos_of_parse {text : JString} {placeholder : MatrixPlaceholder}
    (h : MatrixPlaceholder.parse text = .ok placeholder) : 0 < placeholder.height := by
  unfold MatrixPlaceholder.parse at h
  split at h
  · cases h
  · dsimp only at h
    cases hkind : MatrixPlaceholder.Kind.tryFindKindBy _ with
    | error e =>
      rw [hkind] at h
      cases h
    | ok kind =>
      rw [hkind] at h
      rw [← Except.ok.inj h]
      show 0 < 1 + _
      omega

section

variable {env : Environment} {group : Group} {variant : ExamVariant}
  {m : JMap ProgramId EvaluatedProgramTemplate}

/-- There is always a line, as every box has one. -/
theorem IsContent.ne_nil {placeholder : Placeholder} {lines : List JString}
    (h : IsContent env group variant placeholder lines) {text : JString}
    (hparse : parsePlaceholder text = .ok placeholder) : lines ≠ [] := by
  cases h with
  | @code placeholder programTemplate hkind hloaded hfits =>
    have hheight : 0 < placeholder.height := by
      unfold parsePlaceholder at hparse
      split_ifs at hparse
      · cases hmatrix : MatrixPlaceholder.parse text with
        | error e =>
          rw [hmatrix] at hparse
          cases hparse
        | ok placeholder' =>
          rw [hmatrix] at hparse
          cases hparse
          exact height_pos_of_parse hmatrix
      · cases hline : LinePlaceholder.parse text with
        | error e =>
          rw [hline] at hparse
          cases hparse
        | ok placeholder' =>
          rw [hline] at hparse
          cases hparse
    apply List.ne_nil_of_length_pos
    have hrows := hfits.1
    unfold MatrixPlaceholder.pad
    rw [List.length_append, List.length_replicate]
    omega
  | _ => exact List.cons_ne_nil _ _

/-- The paragraph that is written into the cell of a placeholder has the lines it stands for. -/
theorem exists_shownLines (hlower : LowersLetters env) (hgroup : IsGroup group)
    (hm : IsEvaluated env group m) {placeholderRef : PlaceholderRef} {paragraph : Node}
    {text : JString} (hparse : parsePlaceholder text = .ok placeholderRef.placeholder)
    (h : paragraphFor env.toLowerCase (buildExamModel m group variant) variant placeholderRef
      = .ok paragraph) :
    ∃ lines nodes, IsContent env group variant placeholderRef.placeholder lines
      ∧ paragraph = Node.paragraph placeholderRef.styleName nodes
      ∧ Odf.shownLines nodes = lines := by
  unfold paragraphFor at h
  cases hcontent : contentForPlaceholder env.toLowerCase placeholderRef.placeholder
      (buildExamModel m group variant) variant with
  | error e =>
    rw [hcontent] at h
    cases h
  | ok content =>
    rw [hcontent] at h
    have hlines := isContent_of_contentForPlaceholder hlower hgroup hm hcontent
    obtain ⟨nodes, hparagraph, hshown, -⟩ :=
      shownLines_of_lineStringToParagraph (hlines.ne_nil hparse) h
    exact ⟨content.lines, nodes, hlines, hparagraph, hshown⟩

theorem isExam_of_isFilled {document : Document} (hlower : LowersLetters env)
    (htemplate : env.loadDocument = .ok document.root) (hgroup : IsGroup group)
    (hm : IsEvaluated env group m) {contentDom : Node}
    (h : IsFilled env m group variant contentDom) :
    IsExam env group variant document.root contentDom := by
  obtain ⟨examTemplate, placeholderRefs, hload, hfind, hrun⟩ := h
  obtain rfl : document.root = examTemplate := Except.ok.inj (htemplate.symm.trans hload)
  rw [findPlaceholders_eq] at hfind
  obtain ⟨placeholderRefs', hfind', hrefs⟩ :=
    mapM_eq_ok_of_forall (mapM_ok_iff.mp ⟨placeholderRefs, hfind⟩)
  obtain rfl : placeholderRefs' = placeholderRefs := Except.ok.inj (hfind'.symm.trans hfind)
  have hrefers : List.Forall₂ (RefersTo document.root)
      (document.root.outermostPaths isPlaceholderCell) placeholderRefs' :=
    forall₂_of_map_eq (map_subtree?_outermostPaths _ _) (fun cell hcell => of_mem_outermost hcell)
      hrefs
  have hnodup : (placeholderRefs'.map PlaceholderRef.wrapperCell).Nodup := nodup_wrapperCells hrefs
  have hflat : ∀ p ∈ document.root.outermostPaths isPlaceholderCell,
      ∀ q ∈ document.root.outermostPaths isPlaceholderCell, p <+: q → p = q :=
    fun p hp q hq => eq_of_mem_outermostPaths hp hq
  obtain ⟨paragraphOf, hparagraphs⟩ := exists_paragraphOf env.toLowerCase hrun
  rw [run_fillPlaceholders hparagraphs fun r hr => wrapperCell_ne_none hrefers hr] at hrun
  obtain rfl : document.root.setChildren (newChildren paragraphOf placeholderRefs'.reverse)
      = contentDom := congrArg Prod.snd hrun
  refine ⟨filledAt_setChildren hrefers hparagraphs hnodup hflat, fun path cell hpath hcell => ?_⟩
  have hmem := mem_outermostPaths.mpr hpath
  obtain ⟨r, hr, cell', hcell', -, hok⟩ := exists_of_mem_forall₂ hrefers hmem
  obtain rfl : cell = cell' := Option.some.inj (hcell.symm.trans hcell')
  obtain ⟨hwrapper, -, hparse⟩ := placeholderRefOf_ok hok
  obtain ⟨lines, nodes, hlines, hparagraph, hshown⟩ :=
    exists_shownLines hlower hgroup hm hparse (hparagraphs r hr)
  refine ⟨r.placeholder, lines, r.styleName, nodes, hparse, hlines, ?_, hshown⟩
  rw [← hparagraph]
  refine subtree?_setChildren_of_selected hcell ?_ fun q hq hne node hnode => ?_
  · refine newChildren_of_mem ?_ (List.mem_reverse.mpr hr) hwrapper.symm
    rw [List.map_reverse]
    exact List.nodup_reverse.mpr hnodup
  · -- no cell is inside another
    by_contra hsome
    exact hne (hflat q (mem_paths_of_newChildren hrefers hnode hsome) path hmem hq)

/-- **Every saved exam shows what it should**: whichever way the exams are generated and however
far that has come, a document that has been saved is that of one of the two groups, for students or
for teachers, and it is the template with each placeholder replaced by what it stands for there. -/
theorem savedExam_isExam {document : Document} (hlower : LowersLetters env)
    (htemplate : env.loadDocument = .ok document.root) {effects : List Effect}
    (hdone : IsDone env effects) {fileName : JString} {contentDom : Node}
    (h : .document fileName contentDom ∈ effects) :
    ∃ group variant, IsGroup group ∧ fileName = documentName group variant
      ∧ IsExam env group variant document.root contentDom := by
  obtain ⟨group, variant, m, hgroup, hm, hname, hfilled⟩ := hdone.isMade h
  exact ⟨group, variant, hgroup, hname,
    isExam_of_isFilled hlower htemplate hgroup hm.isEvaluated hfilled⟩

end

/-- A workspace with one program, which has a gap and a hidden line and writes its answer. -/
def answerEnvironment (answer hidden : JString) : Environment where
  readWholeFile path :=
    if path = jstr "01.cpp" then
      .ok (jstr "x=__" ++ answer ++ jstr "__;\n" ++ hidden ++ jstr "%hidden")
    else .error .ioException
  compile _ _ _ := .ok ⟨[], some ⟨.ok ⟨[answer], [], 0⟩⟩⟩
  loadDocument := .ok smallDocument.root
  save _ := .ok ()
  writeOutputs := .ok ()
  toLowerCase := asciiToLowerCase

/-- The exam of group B for teachers. -/
theorem savedExam_isExam_example :
    ∃ contentDom group variant, IsGroup group
      ∧ documentName .B .teacher = documentName group variant
      ∧ IsExam (answerEnvironment (jstr "7") (jstr "f();")) group variant smallDocument.root
        contentDom := by
  have hsaved : documentName .B .teacher ∈ savedDocuments
      (generateAllExamVariants (answerEnvironment (jstr "7") (jstr "f();"))).effects := by
    decide +kernel
  obtain ⟨contentDom, h⟩ := mem_savedDocuments.mp hsaved
  have hlower : LowersLetters (answerEnvironment (jstr "7") (jstr "f();")) := fun _ _ => rfl
  exact ⟨contentDom, savedExam_isExam hlower rfl .commandLine h⟩

/-! ### What students get -/

/-- Two workspaces that the students of a group must not be able to tell apart by their exam: they
have the same template and programs with the same numbers, which differ for the group only in what
is hidden from students and in output lines that no placeholder shows them. -/
structure AlikeForStudents (group : Group) (env₁ env₂ : Environment) : Prop where
  loadDocument : env₁.loadDocument = env₂.loadDocument
  toLowerCase : env₁.toLowerCase = env₂.toLowerCase
  same_ids : ∀ programId, (∃ programTemplate, Loaded env₁ programId programTemplate)
    ↔ ∃ programTemplate, Loaded env₂ programId programTemplate
  same_shape : ∀ programId programTemplate₁ programTemplate₂,
    Loaded env₁ programId programTemplate₁ → Loaded env₂ programId programTemplate₂ →
    SameVisibleShape group programTemplate₁ programTemplate₂
  same_lines : ∀ examTemplate placeholderRefs, env₁.loadDocument = .ok examTemplate →
    findPlaceholders examTemplate = .ok placeholderRefs →
    ∀ placeholder, .matrix placeholder ∈ placeholderRefs.map PlaceholderRef.placeholder →
    placeholder.kind = .output → ∀ processOutput₁ processOutput₂,
      IsProcessOutput env₁ ⟨placeholder.index⟩ group (some processOutput₁) →
      IsProcessOutput env₂ ⟨placeholder.index⟩ group (some processOutput₂) →
      lineNumber processOutput₁.standardOutput placeholder.lineIndex
        = lineNumber processOutput₂.standardOutput placeholder.lineIndex

section

variable {env₁ env₂ : Environment} {group : Group} {m₁ m₂ : JMap ProgramId EvaluatedProgramTemplate}

theorem IsComplete.lookup_eq_none_iff {env : Environment}
    {m : JMap ProgramId EvaluatedProgramTemplate} (hm : IsComplete env group m)
    (programId : ProgramId) :
    m.lookup programId = none ↔ ¬ ∃ programTemplate, Loaded env programId programTemplate := by
  constructor
  · rintro hnone ⟨programTemplate, hloaded⟩
    obtain ⟨evaluated, hsome⟩ := hm.loaded programId programTemplate hloaded
    rw [hnone] at hsome
    cases hsome
  · intro hnone
    by_contra hsome
    obtain ⟨evaluated, hsome⟩ := Option.ne_none_iff_exists'.mp hsome
    obtain ⟨programTemplate, -, hloaded, -⟩ := (hm.isEvaluated _ _).mp hsome
    exact hnone ⟨programTemplate, hloaded⟩

/-- What the exams are made from is the same to students. -/
theorem AlikeForStudents.sameForStudents (h : AlikeForStudents group env₁ env₂)
    (hm₁ : IsComplete env₁ group m₁) (hm₂ : IsComplete env₂ group m₂) {examTemplate : Node}
    {placeholderRefs : List PlaceholderRef} (hload : env₁.loadDocument = .ok examTemplate)
    (hfind : findPlaceholders examTemplate = .ok placeholderRefs) :
    SameForStudents group (placeholderRefs.map PlaceholderRef.placeholder) m₁ m₂ := by
  refine ⟨fun programId => ?_, ?_, ?_⟩
  · rw [hm₁.lookup_eq_none_iff, hm₂.lookup_eq_none_iff, h.same_ids]
  · intro programId program₁ program₂ h₁ h₂
    obtain ⟨programTemplate₁, _, hloaded₁, -, rfl⟩ := (hm₁.isEvaluated _ _).mp h₁
    obtain ⟨programTemplate₂, _, hloaded₂, -, rfl⟩ := (hm₂.isEvaluated _ _).mp h₂
    exact h.same_shape programId programTemplate₁ programTemplate₂ hloaded₁ hloaded₂
  · intro placeholder hmem hkind program₁ program₂ h₁ h₂
    obtain ⟨_, processOutput₁, -, hprocess₁, rfl⟩ := (hm₁.isEvaluated _ _).mp h₁
    obtain ⟨_, processOutput₂, -, hprocess₂, rfl⟩ := (hm₂.isEvaluated _ _).mp h₂
    exact h.same_lines examTemplate placeholderRefs hload hfind placeholder hmem hkind
      processOutput₁ processOutput₂ hprocess₁ hprocess₂

/-- Where the contents are equal, so are the documents. -/
theorem fillPlaceholders_eq_of_contents {toLowerCase : JString → JString}
    {placeholderRefs : List PlaceholderRef} {exam exam' : Exam} {variant : ExamVariant}
    (h : ∀ placeholderRef ∈ placeholderRefs,
      contentForPlaceholder toLowerCase placeholderRef.placeholder exam variant
        = contentForPlaceholder toLowerCase placeholderRef.placeholder exam' variant) :
    fillPlaceholders toLowerCase placeholderRefs exam variant
      = fillPlaceholders toLowerCase placeholderRefs exam' variant := by
  unfold fillPlaceholders
  induction placeholderRefs with
  | nil => rfl
  | cons placeholderRef placeholderRefs ih =>
    obtain ⟨hhead, htail⟩ := List.forall_mem_cons.mp h
    rw [List.forM_cons, List.forM_cons, ih htail]
    unfold fillPlaceholder
    rw [hhead]

/-- The exams for students are filled with the same. -/
theorem AlikeForStudents.contentDom_eq (h : AlikeForStudents group env₁ env₂)
    (hm₁ : IsComplete env₁ group m₁) (hm₂ : IsComplete env₂ group m₂)
    {contentDom₁ contentDom₂ : Node}
    (h₁ : IsFilled env₁ m₁ group .student contentDom₁)
    (h₂ : IsFilled env₂ m₂ group .student contentDom₂) : contentDom₁ = contentDom₂ := by
  obtain ⟨examTemplate, placeholderRefs, hload, hfind, hrun₁⟩ := h₁
  obtain ⟨examTemplate', placeholderRefs', hload', hfind', hrun₂⟩ := h₂
  have hsame := h.sameForStudents hm₁ hm₂ hload hfind
  rw [← h.loadDocument, hload, Except.ok.injEq] at hload'
  subst hload'
  rw [hfind, Except.ok.injEq] at hfind'
  subst hfind'
  rw [← h.toLowerCase, ← fillPlaceholders_eq_of_contents fun placeholderRef hmem =>
    contentForPlaceholder_student_eq env₁.toLowerCase hsame (List.mem_map_of_mem hmem)] at hrun₂
  have hrun := hrun₁.symm.trans hrun₂
  exact congrArg Prod.snd hrun

theorem documentName_injective {group' : Group} {variant variant' : ExamVariant}
    (hgroup : IsGroup group) (hgroup' : IsGroup group')
    (h : documentName group variant = documentName group' variant') :
    group = group' ∧ variant = variant' := by
  rcases hgroup with rfl | rfl <;> rcases hgroup' with rfl | rfl <;>
    cases variant <;> cases variant' <;> first | exact ⟨rfl, rfl⟩ | exact absurd h (by decide)

/-- **What students get does not depend on what they must not see.**  On two workspaces that the
students of a group must not be able to tell apart, their exams are the same, whichever way they
are generated on either, and in whatever order the tasks end. -/
theorem studentExams_eq (h : AlikeForStudents group env₁ env₂) (hgroup : IsGroup group)
    {effects₁ effects₂ : List Effect} (hdone₁ : IsDone env₁ effects₁)
    (hdone₂ : IsDone env₂ effects₂) {contentDom₁ contentDom₂ : Node}
    (h₁ : .document (documentName group .student) contentDom₁ ∈ effects₁)
    (h₂ : .document (documentName group .student) contentDom₂ ∈ effects₂) :
    contentDom₁ = contentDom₂ := by
  obtain ⟨group₁, variant₁, m₁, hgroup₁, hm₁, hname₁, hfilled₁⟩ := hdone₁.isMade h₁
  obtain ⟨group₂, variant₂, m₂, hgroup₂, hm₂, hname₂, hfilled₂⟩ := hdone₂.isMade h₂
  obtain ⟨rfl, rfl⟩ := documentName_injective hgroup hgroup₁ hname₁
  obtain ⟨rfl, rfl⟩ := documentName_injective hgroup hgroup₂ hname₂
  exact h.contentDom_eq hm₁ hm₂ hfilled₁ hfilled₂

end

/-- The program of that workspace. -/
def answerTemplate (answer hidden : JString) : ProgramTemplate :=
  ⟨[⟨[.text (jstr "x="), .gap answer, .text (jstr ";")], .normal, none⟩,
    ⟨[.text hidden], .hidden, none⟩]⟩

/-- The workspace has this program only, where the source is parsed to it. -/
theorem loaded_answerEnvironment {answer hidden : JString}
    (hparse : loadProgramTemplate (answerEnvironment answer hidden) (jstr "01.cpp")
      = .ok (answerTemplate answer hidden)) (programId : ProgramId)
    (programTemplate : ProgramTemplate) :
    Loaded (answerEnvironment answer hidden) programId programTemplate
      ↔ programId = ⟨1⟩ ∧ programTemplate = answerTemplate answer hidden := by
  have hload : loadProgramTemplates (answerEnvironment answer hidden)
      = .ok ((∅ : JMap ProgramId ProgramTemplate).insert ⟨1⟩ (answerTemplate answer hidden)) := by
    have hfirst : loadProgramTemplate (answerEnvironment answer hidden)
        (format02d (ProgramId.fromIndex 0).id ++ jstr ".cpp")
          = .ok (answerTemplate answer hidden) := hparse
    have hsecond : loadProgramTemplate (answerEnvironment answer hidden)
        (format02d (ProgramId.fromIndex 1).id ++ jstr ".cpp") = .error .ioException := rfl
    unfold loadProgramTemplates maxCodeTemplatesCount loadProgramTemplatesFrom
    dsimp only
    rw [hfirst]
    unfold loadProgramTemplatesFrom
    dsimp only
    rw [hsecond]
    rfl
  rw [loaded_iff hload]
  by_cases hid : programId = ⟨1⟩
  · subst hid
    rw [AList.lookup_insert, Option.some.injEq]
    simp [eq_comm]
  · rw [AList.lookup_insert_ne hid]
    simp [hid]

/-- The students of either group cannot tell apart two such workspaces. -/
theorem alikeForStudents_answerEnvironment {answer₁ answer₂ hidden₁ hidden₂ : JString}
    (hparse₁ : loadProgramTemplate (answerEnvironment answer₁ hidden₁) (jstr "01.cpp")
      = .ok (answerTemplate answer₁ hidden₁))
    (hparse₂ : loadProgramTemplate (answerEnvironment answer₂ hidden₂) (jstr "01.cpp")
      = .ok (answerTemplate answer₂ hidden₂))
    (hlength : answer₁.length = answer₂.length) (group : Group) :
    AlikeForStudents group (answerEnvironment answer₁ hidden₁)
      (answerEnvironment answer₂ hidden₂) := by
  refine ⟨rfl, rfl, fun programId => ?_, ?_, ?_⟩
  · simp only [loaded_answerEnvironment hparse₁, loaded_answerEnvironment hparse₂,
      exists_and_left, exists_eq, and_true]
  · intro programId programTemplate₁ programTemplate₂ h₁ h₂
    obtain ⟨-, rfl⟩ := (loaded_answerEnvironment hparse₁ _ _).mp h₁
    obtain ⟨-, rfl⟩ := (loaded_answerEnvironment hparse₂ _ _).mp h₂
    exact .cons (.cons (.text _) (.cons (.gap hlength) (.cons (.text _) .nil))) .nil
  · intro examTemplate placeholderRefs hload hfind placeholder hmem hkind
    obtain rfl : smallDocument.root = examTemplate := Except.ok.inj hload
    -- the template has no placeholder for a line of output
    rw [findPlaceholders_smallDocument, Except.ok.injEq] at hfind
    rw [← hfind] at hmem
    simp only [List.map_cons, List.map_nil, List.mem_cons, Placeholder.matrix.injEq, reduceCtorEq,
      List.not_mem_nil, or_false] at hmem
    subst hmem
    cases hkind

/-- The answers `7` and `8`, on the command line and by a `ProjectTask`. -/
theorem studentExams_eq_example :
    ∃ contentDom, .document (documentName .A .student) contentDom
        ∈ (generateAllExamVariants (answerEnvironment (jstr "7") (jstr "f();"))).effects
      ∧ .document (documentName .A .student) contentDom
        ∈ ((projectTask (answerEnvironment (jstr "8") (jstr "g();"))).runFirst 60
          newProjectTask).world.effects := by
  have hsaved₁ : documentName .A .student ∈ savedDocuments
      (generateAllExamVariants (answerEnvironment (jstr "7") (jstr "f();"))).effects := by
    decide +kernel
  have hsaved₂ : documentName .A .student ∈ savedDocuments
      ((projectTask (answerEnvironment (jstr "8") (jstr "g();"))).runFirst 60
        newProjectTask).world.effects := by
    decide +kernel
  obtain ⟨contentDom₁, h₁⟩ := mem_savedDocuments.mp hsaved₁
  obtain ⟨contentDom₂, h₂⟩ := mem_savedDocuments.mp hsaved₂
  have halike : AlikeForStudents .A (answerEnvironment (jstr "7") (jstr "f();"))
      (answerEnvironment (jstr "8") (jstr "g();")) :=
    alikeForStudents_answerEnvironment (by decide) (by decide) (by decide) .A
  have heq : contentDom₁ = contentDom₂ := studentExams_eq halike (.inl rfl) .commandLine
    (.projectTask (Promise.System.reachable_runFirst 60)) h₁ h₂
  exact ⟨contentDom₁, h₁, heq ▸ h₂⟩

end ExamGeneratorNg
