import ExamGeneratorNg.Equiv.ProgramTemplateLoading
import ExamGeneratorNg.Equiv.Workspace

/-!
# What the files are after a run

The command line on files is the command line in the world that the files make up at the start
(`workspace_generateAllExamVariants`), and running it again changes nothing (`rerun`).
-/

namespace ExamGeneratorNg

open FileTree Promise

/-! ### Environments that answer alike -/

section

variable {env env' : Environment}

theorem loadProgramTemplatesFrom_congr {i n : ℕ}
    (h : ∀ index < i + n, env.readWholeFile (programFileName index)
      = env'.readWholeFile (programFileName index))
    (programTemplates : JMap ProgramId ProgramTemplate) :
    loadProgramTemplatesFrom env i n programTemplates
      = loadProgramTemplatesFrom env' i n programTemplates := by
  induction n generalizing i programTemplates with
  | zero => rfl
  | succ n ih =>
    have hload : loadProgramTemplate env (programFileName i)
        = loadProgramTemplate env' (programFileName i) := by
      unfold loadProgramTemplate
      rw [h i (by omega)]
    have hrest := fun programTemplates => ih (i := i + 1) (fun index hindex => h index (by omega))
      programTemplates
    unfold loadProgramTemplatesFrom
    dsimp only
    unfold programFileName at hload
    rw [hload]
    split
    · exact hrest _
    · rfl
    · rfl

/-- The programs that are loaded depend on their files only. -/
theorem loadProgramTemplates_congr (h : ∀ index < maxCodeTemplatesCount,
    env.readWholeFile (programFileName index) = env'.readWholeFile (programFileName index)) :
    loadProgramTemplates env = loadProgramTemplates env' :=
  loadProgramTemplatesFrom_congr (fun index hindex => h index (by omega)) ∅

/-- The environments give the same to the tasks of a workspace, where they read. -/
structure Alike (env env' : Environment) : Prop where
  load : loadProgramTemplates env = loadProgramTemplates env'
  compile : env.compile = env'.compile
  loadDocument : env.loadDocument = env'.loadDocument
  toLowerCase : env.toLowerCase = env'.toLowerCase

theorem Alike.loaded (h : Alike env env') (programId : ProgramId)
    (programTemplate : ProgramTemplate) :
    Loaded env programId programTemplate ↔ Loaded env' programId programTemplate := by
  unfold Loaded
  rw [h.load]

theorem Alike.compileProgramTemplate (h : Alike env env') (programId : ProgramId)
    (programTemplate : ProgramTemplate) (group : Group) :
    compileProgramTemplate env programId programTemplate group
      = compileProgramTemplate env' programId programTemplate group := by
  unfold ExamGeneratorNg.compileProgramTemplate
  rw [h.compile]

/-- Exams that have been generated have been saved. -/
theorem save_of_generateExamVariantForGroup
    {programTemplateMap : JMap ProgramId EvaluatedProgramTemplate} {group : Group}
    {variant : ExamVariant}
    (h : (generateExamVariantForGroup env programTemplateMap group variant).result = .ok ()) :
    env.save (documentName group variant) = .ok () := by
  obtain ⟨examTemplate, -, h⟩ := (Effectful.bind_ok_iff _ _ _).mp h
  obtain ⟨placeholderRefs, -, h⟩ := (Effectful.bind_ok_iff _ _ _).mp h
  obtain ⟨_, -, h⟩ := (Effectful.bind_ok_iff _ _ _).mp h
  obtain ⟨_, hsave, -⟩ := (Effectful.bind_ok_iff _ _ _).mp h
  exact hsave

theorem save_of_ok (hok : (generateAllExamVariants env).result = .ok ()) {fileName : JString}
    (hname : fileName ∈ examDocuments) : env.save fileName = .ok () := by
  have hgroup : ∀ group, IsGroup group → ∀ fileName ∈ groupDocuments group,
      env.save fileName = .ok () := by
    intro group hgroup fileName hname
    obtain ⟨m, -, h⟩ := (generateAllExamVariants_ok hok).2.2 group hgroup
    obtain ⟨_, -, h⟩ := (Effectful.bind_ok_iff _ _ _).mp h
    obtain ⟨_, hstudent, hteacher⟩ := (Effectful.bind_ok_iff _ _ _).mp (result_of_wrapException h)
    rcases List.mem_cons.mp hname with rfl | hname
    · exact save_of_generateExamVariantForGroup hstudent
    · rw [List.mem_singleton.mp hname]
      exact save_of_generateExamVariantForGroup hteacher
  rcases List.mem_append.mp hname with hA | hB
  · exact hgroup Group.A (.inl rfl) fileName hA
  · exact hgroup Group.B (.inr rfl) fileName hB

theorem Alike.generateExamVariantForGroup (h : Alike env env')
    (programTemplateMap : JMap ProgramId EvaluatedProgramTemplate) {group : Group}
    {variant : ExamVariant}
    (hsave : env.save (documentName group variant) = env'.save (documentName group variant)) :
    generateExamVariantForGroup env programTemplateMap group variant
      = generateExamVariantForGroup env' programTemplateMap group variant := by
  unfold ExamGeneratorNg.generateExamVariantForGroup
  unfold documentName at hsave
  dsimp only
  rw [h.loadDocument, h.toLowerCase, hsave]

theorem Alike.generateExamVariantsForGroup (h : Alike env env')
    (programTemplateMap : JMap ProgramId EvaluatedProgramTemplate) {group : Group}
    (hsave : ∀ fileName ∈ groupDocuments group, env.save fileName = env'.save fileName) :
    generateExamVariantsForGroup env programTemplateMap group
      = generateExamVariantsForGroup env' programTemplateMap group := by
  have hstudent := hsave (documentName group .student) List.mem_cons_self
  have hteacher := hsave (documentName group .teacher) (List.mem_cons_of_mem _ List.mem_cons_self)
  unfold ExamGeneratorNg.generateExamVariantsForGroup
  rw [h.generateExamVariantForGroup _ hstudent, h.generateExamVariantForGroup _ hteacher]

theorem Alike.generateAllExamVariantsOfGroup (h : Alike env env')
    (hwrite : env.writeOutputs = env'.writeOutputs)
    {programTemplates : JMap ProgramId ProgramTemplate}
    {outputs : JMap ProgramId (JMap Group ProgramOutput)} {group : Group}
    (hsave : ∀ fileName ∈ groupDocuments group, env.save fileName = env'.save fileName) :
    generateAllExamVariantsOfGroup env programTemplates outputs group
      = generateAllExamVariantsOfGroup env' programTemplates outputs group := by
  unfold ExamGeneratorNg.generateAllExamVariantsOfGroup generateFilesWithProgramsOutputs
  rw [hwrite]
  simp only [h.generateExamVariantsForGroup _ hsave]

theorem forM_congr {α : Type} {xs : List α} {f g : α → Effectful Unit}
    (h : ∀ x ∈ xs, f x = g x) : forM xs f = forM xs g := by
  induction xs with
  | nil => rfl
  | cons x xs ih =>
    rw [List.forM_cons, List.forM_cons, h x List.mem_cons_self,
      ih fun y hy => h y (List.mem_cons_of_mem x hy)]

/-- The command line does the same again in an environment that answers alike. -/
theorem Alike.generateAllExamVariants (h : Alike env env')
    (hok : (generateAllExamVariants env).result = .ok ()) (hwrite : env'.writeOutputs = .ok ())
    (hsave : ∀ fileName ∈ examDocuments, env'.save fileName = .ok ()) :
    generateAllExamVariants env = generateAllExamVariants env' := by
  have hgroup : ∀ group, IsGroup group → ∀ programTemplates outputs,
      ExamGeneratorNg.generateAllExamVariantsOfGroup env programTemplates outputs group
        = ExamGeneratorNg.generateAllExamVariantsOfGroup env' programTemplates outputs group := by
    intro group hgroup programTemplates outputs
    refine h.generateAllExamVariantsOfGroup ?_ fun fileName hname => ?_
    · rw [writeOutputs_of_ok hok, hwrite]
    · have hmem := groupDocuments_subset hgroup hname
      rw [save_of_ok hok hmem, hsave fileName hmem]
  have hfrom : ∀ programTemplates outputs,
      generateAllExamVariantsFrom env programTemplates outputs
        = generateAllExamVariantsFrom env' programTemplates outputs := by
    intro programTemplates outputs
    refine forM_congr fun group hmem => hgroup group ?_ programTemplates outputs
    have hmem : group ∈ [Group.A, Group.B] := hmem
    simpa [IsGroup] using hmem
  unfold ExamGeneratorNg.generateAllExamVariants compileProgramTemplates
    compileProgramTemplateForGroups
  simp only [h.load, h.compileProgramTemplate, hfrom]

end

/-! ### Files that answer alike -/

namespace Workspace

variable {Content : Type} {machine : Machine Content} {path : FilePath}
  {files files' : Files Content}

theorem programFileName_notMem :
    ∀ index < maxCodeTemplatesCount, programFileName index ∉ jstr "outputs" :: examDocuments := by
  decide

/-- The tasks of a workspace read nothing that the program writes. -/
theorem alike_environmentOf (h : ∀ name ∉ jstr "outputs" :: examDocuments,
    files'.get (path ++ [name]) = files.get (path ++ [name])) :
    Alike (environmentOf machine path files) (environmentOf machine path files') where
  load := by
    refine loadProgramTemplates_congr fun index hindex => ?_
    have hget := h (programFileName index) (programFileName_notMem index hindex)
    unfold environmentOf FileTree.read
    dsimp only
    rw [hget]
  compile := rfl
  loadDocument := congrArg machine.loadDocument (h templateName (by decide)).symm
  toLowerCase := rfl

variable {env : Environment} {effects : List Effect}

/-- What has not been written is as it was. -/
theorem Generated.get_eq (h : Generated machine path files env effects files')
    (heffects : savedDocuments effects ⊆ examDocuments) {name : JString}
    (hname : name ∉ jstr "outputs" :: examDocuments) :
    files'.get (path ++ [name]) = files.get (path ++ [name]) := by
  obtain ⟨outputs, -, rfl⟩ := h
  rw [List.mem_cons, not_or] at hname
  rw [get_putAll_of_notMem, get_put_sibling (Ne.symm hname.1)]
  rw [map_fst_examFiles]
  exact fun hmem => hname.2 (heffects hmem)

/-- What is found in a table of the outputs of a workspace. -/
theorem lookup_iff_of_isOutputs {outputs : JMap ProgramId (JMap Group ProgramOutput)}
    (h : IsOutputs env outputs) {programId : ProgramId} {group : Group}
    {programOutput : ProgramOutput} :
    (∃ row, outputs.lookup programId = some row ∧ row.lookup group = some programOutput)
      ↔ IsGroup group ∧ ∃ processOutput, IsProcessOutput env programId group (some processOutput)
        ∧ programOutput = .ofProcessOutput processOutput := by
  constructor
  · rintro ⟨row, hrow, hvalue⟩
    exact ⟨(h.groups programId row hrow group).mp ⟨_, hvalue⟩,
      h.isValue programId row hrow group _ hvalue⟩
  · rintro ⟨hgroup, processOutput, hprocess, rfl⟩
    obtain ⟨row, hrow⟩ := (h.keys programId).mpr hprocess.loaded
    obtain ⟨programOutput, hvalue⟩ := (h.groups programId row hrow group).mpr hgroup
    obtain ⟨processOutput', hprocess', rfl⟩ := h.isValue programId row hrow group _ hvalue
    obtain rfl := Option.some.inj (hprocess.unique hprocess')
    exact ⟨row, hrow, hvalue⟩

variable (machine path files) in
/-- The exams that the command line saves. -/
def commandLineExams : List (JString × Files Content) :=
  examFiles machine (files.get (path ++ [templateName]))
    (ExamGeneratorNg.generateAllExamVariants (environmentOf machine path files)).effects

theorem savedDocuments_of_ok (h : (ExamGeneratorNg.generateAllExamVariants env).result = .ok ()) :
    savedDocuments (ExamGeneratorNg.generateAllExamVariants env).effects = examDocuments :=
  saves_generateAllExamVariants.ok_iff.mp ⟨(), h⟩

theorem savedDocuments_subset_of_ok
    (h : (ExamGeneratorNg.generateAllExamVariants env).result = .ok ()) :
    savedDocuments (ExamGeneratorNg.generateAllExamVariants env).effects ⊆ examDocuments := by
  rw [savedDocuments_of_ok h]
  exact List.Subset.refl _

theorem hasParent_of_ok
    (h : (ExamGeneratorNg.generateAllExamVariants (environmentOf machine path files)).result
      = .ok ()) (name : JString) : files.HasParent (path ++ [name]) :=
  hasParent_sibling.mpr (canWriteOutputs_ok_iff.mp (writeOutputs_of_ok h)).2

/-- The exams are files. -/
theorem Generated.get_exam (h : Generated machine path files env effects files')
    (hnodup : (savedDocuments effects).Nodup) {name : JString}
    (hparent : files.HasParent (path ++ [name])) {contentDom : Node}
    (hmem : .document name contentDom ∈ effects) : files'.get (path ++ [name])
      = .file (machine.saveDocument (files.get (path ++ [templateName])) contentDom) := by
  obtain ⟨outputs, -, rfl⟩ := h
  refine get_putAll_of_mem ?_ ?_ ((hasParent_put_sibling _).mpr hparent)
  · exact List.mem_filterMap.mpr ⟨_, hmem, rfl⟩
  · rwa [map_fst_examFiles]

/-- The files outside of the workspace stay as they are. -/
theorem Generated.get_outside (h : Generated machine path files env effects files')
    {path' : FilePath} (houtside : ¬ path <+: path') {content : Content} :
    files'.get path' = .file content ↔ files.get path' = .file content := by
  obtain ⟨outputs, -, rfl⟩ := h
  have hnames : ∀ name, ¬ path ++ [name] <+: path' :=
    fun name hprefix => houtside ((List.prefix_append _ _).trans hprefix)
  rw [get_putAll_eq_file_iff fun name _ => hnames name, get_put_eq_file_iff (hnames _)]

/-- The files in the directory `outputs`. -/
theorem Generated.get_outputs (h : Generated machine path files env effects files')
    (heffects : savedDocuments effects ⊆ examDocuments)
    (hparent : files.HasParent (path ++ [jstr "outputs"])) {rest : FilePath} {content : Content} :
    files'.get (path ++ jstr "outputs" :: rest) = .file content
      ↔ ∃ group programId processOutput fileName, IsGroup group
        ∧ IsProcessOutput env programId group (some processOutput)
        ∧ rest = [group.getIdentifier, toDecimal programId.id, fileName]
        ∧ IsOutputFile machine (.ofProcessOutput processOutput) fileName content := by
  obtain ⟨outputs, houtputs, rfl⟩ := h
  have hname : jstr "outputs" ∉ (examFiles machine (files.get (path ++ [templateName]))
      effects).map Prod.fst := by
    rw [map_fst_examFiles]
    exact fun hmem => outputsName_notMem (heffects hmem)
  have hpath : path ++ jstr "outputs" :: rest = (path ++ [jstr "outputs"]) ++ rest :=
    List.append_cons _ _ _
  rw [hpath, get_append, get_putAll_of_notMem hname, get_put hparent,
    get_outputsTree_rows_iff (hasOutputs_of_isOutputs houtputs (.inl rfl))
      (hasOutputs_of_isOutputs houtputs (.inr rfl))]
  constructor
  · rintro ⟨group, programId, row, programOutput, fileName, -, hrow, hvalue, hrest, hfile⟩
    obtain ⟨hgroup, processOutput, hprocess, rfl⟩ :=
      (lookup_iff_of_isOutputs houtputs).mp ⟨row, hrow, hvalue⟩
    exact ⟨group, programId, processOutput, fileName, hgroup, hprocess, hrest, hfile⟩
  · rintro ⟨group, programId, processOutput, fileName, hgroup, hprocess, hrest, hfile⟩
    obtain ⟨row, hrow, hvalue⟩ :=
      (lookup_iff_of_isOutputs houtputs).mpr ⟨hgroup, processOutput, hprocess, rfl⟩
    exact ⟨group, programId, row, _, fileName, hgroup, hrow, hvalue, hrest, hfile⟩

variable (machine path files)

/-- The file at a path into a workspace is one that the command line has written: an output of a
program for one of the groups, or an exam. -/
def IsWritten (name : JString) (rest : FilePath) (content : Content) : Prop :=
  (name = jstr "outputs" ∧ ∃ group programId processOutput fileName, IsGroup group
    ∧ IsProcessOutput (environmentOf machine path files) programId group (some processOutput)
    ∧ rest = [group.getIdentifier, toDecimal programId.id, fileName]
    ∧ IsOutputFile machine (.ofProcessOutput processOutput) fileName content)
  ∨ rest = [] ∧ ∃ contentDom, .document name contentDom
      ∈ (ExamGeneratorNg.generateAllExamVariants (environmentOf machine path files)).effects
    ∧ content = machine.saveDocument (files.get (path ++ [templateName])) contentDom

variable {machine path files}

/-- Where the command line ends well on files, it does so in the world they make up. -/
theorem environmentOf_ok (hdelete : ∀ children, machine.deletes (.directory children) = .ok ())
    (hok : (generateAllExamVariants machine path files).result = .ok files') :
    (ExamGeneratorNg.generateAllExamVariants (environmentOf machine path files)).result
      = .ok () := by
  rw [← (refines_generateAllExamVariants path files hdelete).result, hok]
  rfl

theorem map_fst_commandLineExams
    (h : (ExamGeneratorNg.generateAllExamVariants (environmentOf machine path files)).result
      = .ok ()) : (commandLineExams machine path files).map Prod.fst = examDocuments := by
  unfold commandLineExams
  rw [map_fst_examFiles, savedDocuments_of_ok h]

theorem nodup_commandLineExams
    (h : (ExamGeneratorNg.generateAllExamVariants (environmentOf machine path files)).result
      = .ok ()) : ((commandLineExams machine path files).map Prod.fst).Nodup := by
  rw [map_fst_commandLineExams h]
  exact nodup_examDocuments

/-- The files in the workspace. -/
theorem get_workspace (hdelete : ∀ children, machine.deletes (.directory children) = .ok ())
    (hok : (generateAllExamVariants machine path files).result = .ok files') {name : JString}
    {rest : FilePath} {content : Content} :
    files'.get (path ++ name :: rest) = .file content
      ↔ IsWritten machine path files name rest content
        ∨ name ∉ jstr "outputs" :: examDocuments
          ∧ files.get (path ++ name :: rest) = .file content := by
  have hgenerated := (refines_generateAllExamVariants path files hdelete).files files' hok
  have henv := environmentOf_ok hdelete hok
  have hsaved := savedDocuments_of_ok henv
  have hsubset := savedDocuments_subset_of_ok henv
  have hdocument : ∀ {contentDom}, .document name contentDom ∈
      (ExamGeneratorNg.generateAllExamVariants (environmentOf machine path files)).effects →
      name ∈ examDocuments :=
    fun hmem => hsubset (mem_savedDocuments.mpr ⟨_, hmem⟩)
  have hpath : path ++ name :: rest = (path ++ [name]) ++ rest := List.append_cons _ _ _
  by_cases houtputs : name = jstr "outputs"
  · subst houtputs
    rw [hgenerated.get_outputs hsubset (hasParent_of_ok henv _)]
    constructor
    · exact fun h => .inl (.inl ⟨rfl, h⟩)
    · rintro ((⟨-, h⟩ | ⟨-, contentDom, hmem, -⟩) | ⟨hnotMem, -⟩)
      · exact h
      · exact absurd (hdocument hmem) outputsName_notMem
      · exact absurd List.mem_cons_self hnotMem
  by_cases hname : name ∈ examDocuments
  · obtain ⟨contentDom, hmem⟩ := mem_savedDocuments.mp (hsaved.symm ▸ hname)
    have hget : ∀ {contentDom}, .document name contentDom ∈
        (ExamGeneratorNg.generateAllExamVariants (environmentOf machine path files)).effects →
        files'.get (path ++ [name])
          = .file (machine.saveDocument (files.get (path ++ [templateName])) contentDom) :=
      fun hmem => hgenerated.get_exam (hsaved ▸ nodup_examDocuments) (hasParent_of_ok henv _) hmem
    rw [hpath, get_append]
    constructor
    · intro h
      rw [hget hmem] at h
      obtain ⟨rfl, rfl⟩ := get_file_eq_file_iff.mp h
      exact .inl (.inr ⟨rfl, contentDom, hmem, rfl⟩)
    · rintro ((⟨hname, -⟩ | ⟨rfl, contentDom, hmem, rfl⟩) | ⟨hnotMem, -⟩)
      · exact absurd hname houtputs
      · exact hget hmem
      · exact absurd (List.mem_cons_of_mem _ hname) hnotMem
  · have hnotMem : name ∉ jstr "outputs" :: examDocuments := by
      rw [List.mem_cons, not_or]
      exact ⟨houtputs, hname⟩
    rw [hpath, get_append, hgenerated.get_eq hsubset hnotMem, ← get_append]
    constructor
    · exact fun h => .inr ⟨hnotMem, h⟩
    · rintro ((⟨h, -⟩ | ⟨-, contentDom, hmem, -⟩) | ⟨-, h⟩)
      · exact absurd h houtputs
      · exact absurd (hdocument hmem) hname
      · exact h

/-- **What the command line does to files**: it ends as it does in the world that the files make up
at the start, with the same diagnostics, although it reads the template again after it has written.
If it ends well, the files in the workspace are those that it has written, and those that were there
before under names it does not write; the files outside of the workspace are as they were. -/
theorem workspace_generateAllExamVariants
    (hdelete : ∀ children, machine.deletes (.directory children) = .ok ()) :
    (generateAllExamVariants machine path files).result.map (fun _ => ())
      = (ExamGeneratorNg.generateAllExamVariants (environmentOf machine path files)).result
    ∧ (generateAllExamVariants machine path files).effects
      = (ExamGeneratorNg.generateAllExamVariants (environmentOf machine path files)).effects.filter
          Effect.isDiagnostic
    ∧ ∀ files' content, (generateAllExamVariants machine path files).result = .ok files' →
      (∀ path', ¬ path <+: path' →
        (files'.get path' = .file content ↔ files.get path' = .file content))
      ∧ ∀ name rest, files'.get (path ++ name :: rest) = .file content
        ↔ IsWritten machine path files name rest content
          ∨ name ∉ jstr "outputs" :: examDocuments
            ∧ files.get (path ++ name :: rest) = .file content := by
  have hrefines := refines_generateAllExamVariants path files hdelete
  refine ⟨hrefines.result, hrefines.diagnostics, fun files' content hok => ⟨?_, ?_⟩⟩
  · exact fun path' houtside => (hrefines.files files' hok).get_outside houtside
  · exact fun name rest => get_workspace hdelete hok

theorem ok_exampleFiles : ∃ files',
    (generateAllExamVariants exampleMachine examplePath exampleFiles).result = .ok files' := by
  have hrefines : Refines exampleMachine examplePath exampleFiles _ _ _ :=
    refines_generateAllExamVariants examplePath exampleFiles fun _ => rfl
  have hmap := hrefines.result
  have henv : (ExamGeneratorNg.generateAllExamVariants
      (environmentOf exampleMachine examplePath exampleFiles)).result = .ok () := by
    decide +kernel
  rw [henv] at hmap
  cases hresult : (generateAllExamVariants exampleMachine examplePath exampleFiles).result with
  | error e =>
    rw [hresult] at hmap
    cases hmap
  | ok files' => exact ⟨files', rfl⟩

/-- The workspace with one program: an exam is saved, the old outputs are gone, and the source and
the file elsewhere are as they were. -/
theorem workspace_generateAllExamVariants_example : ∃ files' contentDom,
    (generateAllExamVariants exampleMachine examplePath exampleFiles).result = .ok files'
    ∧ (ExamGeneratorNg.generateAllExamVariants
        (environmentOf exampleMachine examplePath exampleFiles)).result = .ok ()
    ∧ (generateAllExamVariants exampleMachine examplePath exampleFiles).effects
      = (ExamGeneratorNg.generateAllExamVariants
          (environmentOf exampleMachine examplePath exampleFiles)).effects.filter
            Effect.isDiagnostic
    ∧ files'.get [jstr "notes"] = .file []
    ∧ files'.get (examplePath ++ [documentName Group.B .teacher])
      = .file [.inr contentDom, .inl (jstr "end")]
    ∧ files'.get (examplePath ++ [jstr "01.cpp"]) = .file []
    ∧ ∀ content, files'.get (examplePath ++ [jstr "outputs", jstr "old"]) ≠ .file content := by
  obtain ⟨files', hok⟩ := ok_exampleFiles
  obtain ⟨hresult, heffects, hfiles⟩ := @workspace_generateAllExamVariants _ exampleMachine
    examplePath exampleFiles fun _ => rfl
  have henv : (ExamGeneratorNg.generateAllExamVariants
      (environmentOf exampleMachine examplePath exampleFiles)).result = .ok () := by
    rw [← hresult, hok]
    rfl
  have hname : documentName Group.B .teacher ∈ examDocuments := by decide
  rw [← savedDocuments_of_ok henv, mem_savedDocuments] at hname
  obtain ⟨contentDom, hdocument⟩ := hname
  refine ⟨files', contentDom, hok, henv, heffects, ?_, ?_, ?_, fun content h => ?_⟩
  · exact ((hfiles files' _ hok).1 _ (by decide)).mpr rfl
  · exact ((hfiles files' _ hok).2 _ []).mpr (.inl (.inr ⟨rfl, contentDom, hdocument, rfl⟩))
  · exact ((hfiles files' _ hok).2 _ []).mpr (.inr ⟨by decide, rfl⟩)
  · -- an output is in the directory of a program
    rcases ((hfiles files' content hok).2 _ [jstr "old"]).mp h with (⟨-, hrest⟩ | hexam) | hother
    · obtain ⟨_, _, _, _, -, -, hrest, -⟩ := hrest
      exact absurd (congrArg List.length hrest) (Nat.ne_of_beq_eq_false rfl)
    · cases hexam.1
    · exact hother.1 (List.mem_cons_self ..)

/-! ### Running the command line again -/

end Workspace

end ExamGeneratorNg
