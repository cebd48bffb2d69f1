import ExamGeneratorNg.Equiv.CommandLine
import ExamGeneratorNg.Equiv.OutputFiles

/-!
# The command line on the files of a workspace

What the command line does to the files of a workspace is what it does to the world that the files
make up at the start (`environmentOf`), although it goes on reading while it writes: it never reads
what it has written (`refines_generateAllExamVariants`).
-/

namespace ExamGeneratorNg

open FileTree Promise

variable {Content : Type}

/-- The effect is a diagnostic. -/
def Effect.isDiagnostic : Effect → Bool
  | diagnostic _ => true
  | _ => false

/-! ### Computations without diagnostics -/

/-- The computation has no diagnostics. -/
def NoDiagnostics {α : Type} (m : Effectful α) : Prop := ∀ effect ∈ m.effects, ¬ effect.isDiagnostic

theorem Silent.noDiagnostics {α : Type} {m : Effectful α} (h : Silent m) : NoDiagnostics m := by
  intro effect heffect
  rw [h] at heffect
  cases heffect

theorem NoDiagnostics.bind {α β : Type} {m : Effectful α} {f : α → Effectful β}
    (hm : NoDiagnostics m) (hf : ∀ a, NoDiagnostics (f a)) : NoDiagnostics (m >>= f) := by
  intro effect heffect
  rcases (Effectful.mem_effects_bind _ _ _).mp heffect with h | ⟨a, -, h⟩
  · exact hm effect h
  · exact hf a effect h

theorem noDiagnostics_perform {effect : Effect} (h : ¬ effect.isDiagnostic) :
    NoDiagnostics (Effectful.perform effect) := by
  intro effect' heffect'
  rwa [List.mem_singleton.mp heffect']

namespace Workspace

/-! ### Exams as files -/

variable {machine : Machine Content} {template base : Files Content} {path : FilePath}

theorem map_fst_examFiles (effects : List Effect) :
    (examFiles machine template effects).map Prod.fst = savedDocuments effects := by
  unfold examFiles savedDocuments
  rw [List.map_filterMap]
  refine List.filterMap_congr fun effect _ => ?_
  cases effect <;> rfl

theorem examFiles_append (effects effects' : List Effect) :
    examFiles machine template (effects ++ effects')
      = examFiles machine template effects ++ examFiles machine template effects' :=
  List.filterMap_append

theorem examFiles_eq_nil {effects : List Effect} (h : savedDocuments effects = []) :
    examFiles machine template effects = [] := by
  rw [← List.map_eq_nil_iff, map_fst_examFiles, h]

/-! ### Simulation -/

variable (machine template base path)

/-- An operation on files ends as a computation of the other model does, and if it ends well it
has put the exams of the computation into the workspace of some files. -/
structure Simulates (r : Except JavaException (Files Content)) (m : Effectful Unit) : Prop where
  result : r.map (fun _ => ()) = m.result
  files : ∀ files', r = .ok files' →
    files' = base.putAll path (examFiles machine template m.effects)

variable {machine template base path}

theorem Simulates.ok_iff {r : Except JavaException (Files Content)} {m : Effectful Unit}
    (h : Simulates machine template base path r m) :
    (∃ files', r = .ok files') ↔ m.result = .ok () := by
  rw [← h.result]
  cases r with
  | error e => exact ⟨nofun, nofun⟩
  | ok files' => exact ⟨fun _ => rfl, fun _ => ⟨files', rfl⟩⟩

/-- What comes first saves nothing. -/
theorem Simulates.before {α β : Type} {x : Except JavaException α} {y : Effectful β}
    {r : α → Except JavaException (Files Content)} {m : β → Effectful Unit} (hy : SavesNothing y)
    (hresult : x.map (fun _ => ()) = y.result.map fun _ => ())
    (h : ∀ a b, x = .ok a → y.result = .ok b → Simulates machine template base path (r a) (m b)) :
    Simulates machine template base path (x >>= r) (y >>= m) := by
  rcases effects_bind y m with ⟨e, he, -, hend⟩ | ⟨b, hb, heffects, hend⟩
  · rw [he] at hresult
    cases x with
    | ok a => cases hresult
    | error e' =>
      obtain rfl : e' = e := Except.error.inj hresult
      exact ⟨hend.symm, nofun⟩
  · rw [hb] at hresult
    cases x with
    | error e => cases hresult
    | ok a =>
      obtain ⟨hmap, hfiles⟩ := h a b rfl hb
      refine ⟨hmap.trans hend.symm, fun files' hfiles' => ?_⟩
      rw [heffects, examFiles_append, examFiles_eq_nil hy]
      exact hfiles files' hfiles'

/-- What the other model computes without effects is computed here as well. -/
theorem Simulates.before_result {α : Type} {y : Effectful α}
    {r : α → Except JavaException (Files Content)} {m : α → Effectful Unit} (hy : SavesNothing y)
    (h : ∀ a, y.result = .ok a → Simulates machine template base path (r a) (m a)) :
    Simulates machine template base path (y.result >>= r) (y >>= m) := by
  refine Simulates.before hy rfl fun a b ha hb => ?_
  obtain rfl := Except.ok.inj (ha.symm.trans hb)
  exact h a ha

/-- One operation after another. -/
theorem Simulates.bind {r : Except JavaException (Files Content)} {m m' : Effectful Unit}
    {r' : Files Content → Except JavaException (Files Content)}
    (h : Simulates machine template base path r m)
    (h' : ∀ files, r = .ok files → Simulates machine template files path (r' files) m') :
    Simulates machine template base path (r >>= r') (m >>= fun _ => m') := by
  obtain ⟨hmap, hfiles⟩ := h
  rcases effects_bind m fun _ => m' with ⟨e, he, -, hend⟩ | ⟨_, hok, heffects, hend⟩
  · rw [he] at hmap
    cases r with
    | ok files => cases hmap
    | error e' =>
      obtain rfl : e' = e := Except.error.inj hmap
      exact ⟨hend.symm, nofun⟩
  · rw [hok] at hmap
    cases r with
    | error e => cases hmap
    | ok files =>
      obtain ⟨hmap', hfiles'⟩ := h' files rfl
      refine ⟨hmap'.trans hend.symm, fun files'' hfiles'' => ?_⟩
      rw [heffects, examFiles_append, putAll_append, ← hfiles files rfl]
      exact hfiles' files'' hfiles''

/-- That `generateExamVariantsForGroup` is called cannot be seen in the files. -/
theorem Simulates.perform_examVariants {r : Except JavaException (Files Content)}
    {m : Effectful Unit} (h : Simulates machine template base path r m) (group : Group)
    (programTemplateMap : JMap ProgramId EvaluatedProgramTemplate) :
    Simulates machine template base path r
      (Effectful.perform (.examVariants group programTemplateMap) >>= fun _ => m) :=
  Simulates.before (x := .ok ()) (r := fun _ => r) rfl rfl fun _ _ _ _ => h

theorem simulates_pure : Simulates machine template base path (pure base) (pure ()) :=
  ⟨rfl, fun _ hfiles' => (Except.ok.inj hfiles').symm⟩

theorem Simulates.mapError {r : Except JavaException (Files Content)} {m : Effectful Unit}
    (h : Simulates machine template base path r m) :
    Simulates machine template base path (r.mapError .runtimeException) m.wrapException where
  result := by
    show _ = m.result.mapError _
    rw [← h.result]
    cases r <;> rfl
  files files' hfiles := h.files files' (mapError_ok_iff.mp hfiles)

/-! ### What the files answer -/

variable (machine template path)

/-- The environment answers what the files do, where it is asked for the template and whether
documents with some names can be saved. -/
structure Describes (env : Environment) (names : List JString) (files : Files Content) : Prop where
  template_eq : files.get (path ++ [templateName]) = template
  loadDocument : env.loadDocument = machine.loadDocument template
  toLowerCase : env.toLowerCase = machine.toLowerCase
  save : ∀ name ∈ names, env.save name = canSave machine path name files

variable {machine template path} {env : Environment} {names : List JString}
  {files : Files Content}

theorem Describes.mono {names' : List JString} (h : Describes machine template path env names files)
    (hsub : names' ⊆ names) : Describes machine template path env names' files :=
  ⟨h.template_eq, h.loadDocument, h.toLowerCase, fun name hname => h.save name (hsub hname)⟩

theorem canSave_ok_iff {name : JString} :
    canSave machine path name files = .ok ()
      ↔ machine.saves (files.get (path ++ [name])) = .ok () ∧ files.Writable (path ++ [name]) := by
  unfold canSave
  rw [except_bind_ok_iff]
  by_cases hwritable : files.Writable (path ++ [name])
  · rw [if_pos hwritable]
    exact ⟨fun ⟨_, hsaves, _⟩ => ⟨hsaves, hwritable⟩, fun ⟨hsaves, _⟩ => ⟨(), hsaves, rfl⟩⟩
  · rw [if_neg hwritable]
    exact ⟨fun ⟨_, _, herror⟩ => (nomatch herror), fun ⟨_, h⟩ => absurd h hwritable⟩

/-- Whether a document can be saved depends on what is in its place only. -/
theorem canSave_congr {files' : Files Content} {name : JString}
    (hparent : files'.HasParent (path ++ [name]) ↔ files.HasParent (path ++ [name]))
    (hget : files'.get (path ++ [name]) = files.get (path ++ [name])) :
    canSave machine path name files' = canSave machine path name files := by
  have hwritable : files'.Writable (path ++ [name]) ↔ files.Writable (path ++ [name]) := by
    unfold Writable
    rw [hget, hparent]
  unfold canSave
  rw [hget]
  exact bind_congr fun _ => if_congr hwritable rfl rfl

/-- Where there is a file, a document can be saved in its place. -/
theorem canSave_of_file (hsave : ∀ content, machine.saves (.file content) = .ok ()) {name : JString}
    {content : Content} (hget : files.get (path ++ [name]) = .file content) :
    canSave machine path name files = .ok () := by
  rw [canSave_ok_iff, hget]
  refine ⟨hsave content, hasParent_of_get hget, ?_⟩
  rw [hget]
  exact nofun

theorem canSave_put_sibling {name name' : JString} (h : name ≠ name') (u : Files Content) :
    canSave machine path name' (files.put (path ++ [name]) u)
      = canSave machine path name' files :=
  canSave_congr (hasParent_put_sibling u) (get_put_sibling h [] [] u)

/-- What is put under other names does not matter. -/
theorem Describes.put (h : Describes machine template path env names files) {name : JString}
    (htemplate : name ≠ templateName) (hname : name ∉ names) (u : Files Content) :
    Describes machine template path env names (files.put (path ++ [name]) u) where
  template_eq := (get_put_sibling htemplate [] [] u).trans h.template_eq
  loadDocument := h.loadDocument
  toLowerCase := h.toLowerCase
  save name' hname' := by
    have hne : name ≠ name' := fun heq => hname (heq ▸ hname')
    rw [canSave_put_sibling hne, h.save name' hname']

theorem Describes.putAll (h : Describes machine template path env names files)
    {entries : List (JString × Files Content)} (htemplate : templateName ∉ entries.map Prod.fst)
    (hnames : ∀ name ∈ names, name ∉ entries.map Prod.fst) :
    Describes machine template path env names (files.putAll path entries) := by
  induction entries generalizing files with
  | nil => exact h
  | cons entry entries ih =>
    rw [List.map_cons, List.mem_cons, not_or] at htemplate
    have hput := h.put (Ne.symm htemplate.1)
      (fun hmem => hnames _ hmem List.mem_cons_self) entry.2
    refine ih hput htemplate.2 fun name hname => ?_
    exact fun hmem => hnames name hname (List.mem_cons_of_mem _ hmem)

/-- Saving exams under other names does not matter. -/
theorem Describes.putAll_examFiles (h : Describes machine template path env names files)
    {effects : List Effect} {saved : List JString} (hsaved : savedDocuments effects ⊆ saved)
    (htemplate : templateName ∉ saved) (hnames : names.Disjoint saved) :
    Describes machine template path env names
      (files.putAll path (examFiles machine template effects)) := by
  refine h.putAll ?_ fun name hname => ?_
  · rw [map_fst_examFiles]
    exact fun hmem => htemplate (hsaved hmem)
  · rw [map_fst_examFiles]
    exact fun hmem => hnames hname (hsaved hmem)

/-! ### The exams of a group -/

theorem saveExam_eq (fileName : JString) (contentDom : Node) :
    saveExam machine path fileName contentDom files
      = canSave machine path fileName files >>= fun _ => .ok (files.put (path ++ [fileName])
          (.file (machine.saveDocument (files.get (path ++ [templateName])) contentDom))) := by
  unfold saveExam canSave writeFile FileTree.write
  dsimp only
  rw [bind_assoc]
  refine bind_congr fun _ => ?_
  by_cases hwritable : files.Writable (path ++ [fileName])
  · rw [if_pos hwritable, if_pos hwritable]
    rfl
  · rw [if_neg hwritable, if_neg hwritable]
    rfl

theorem savesNothing_of_effects_eq_nil {α : Type} {m : Effectful α} (h : m.effects = []) :
    SavesNothing m := by
  unfold SavesNothing
  rw [h]
  rfl

theorem simulates_saveExam {fileName : JString} (contentDom : Node)
    (h : Describes machine template path env [fileName] files) :
    Simulates machine template files path (saveExam machine path fileName contentDom files)
      (do
        Effectful.ofExcept (env.save fileName)
        Effectful.perform (.document fileName contentDom)) := by
  rw [saveExam_eq, h.template_eq]
  refine Simulates.before (savesNothing_ofExcept _) ?_ fun _ _ _ _ => ⟨rfl, ?_⟩
  · rw [Effectful.result_ofExcept, h.save fileName List.mem_cons_self]
  · intro files' hfiles'
    exact (Except.ok.inj hfiles').symm

theorem simulates_generateExamVariantForGroup
    (programTemplateMap : JMap ProgramId EvaluatedProgramTemplate) {group : Group}
    {variant : ExamVariant}
    (h : Describes machine template path env [documentName group variant] files) :
    Simulates machine template files path
      (generateExamVariantForGroup machine path programTemplateMap group variant files)
      (ExamGeneratorNg.generateExamVariantForGroup env programTemplateMap group variant) := by
  unfold generateExamVariantForGroup ExamGeneratorNg.generateExamVariantForGroup loadExamTemplate
  rw [h.template_eq, ← h.loadDocument, ← h.toLowerCase]
  refine Simulates.before_result (savesNothing_ofExcept _) fun examTemplate _ => ?_
  refine Simulates.before_result (savesNothing_ofExcept _) fun placeholderRefs _ => ?_
  refine Simulates.before_result (savesNothing_ofExcept _) fun _ _ => ?_
  exact simulates_saveExam _ h

theorem templateName_notMem : templateName ∉ examDocuments := by decide

theorem outputsName_notMem : jstr "outputs" ∉ examDocuments := by decide

section

variable {programTemplateMap : JMap ProgramId EvaluatedProgramTemplate} {group : Group}

theorem simulates_generateExamVariantsForGroup (hgroup : IsGroup group)
    (h : Describes machine template path env (groupDocuments group) files) :
    Simulates machine template files path
      (generateExamVariantsForGroup machine path programTemplateMap group files)
      (ExamGeneratorNg.generateExamVariantsForGroup env programTemplateMap group) := by
  obtain ⟨hnotMem, -⟩ := List.nodup_cons.mp (nodup_groupDocuments hgroup)
  have hstudent := h.mono (List.cons_subset.mpr ⟨List.mem_cons_self, List.nil_subset _⟩)
  have hteacher := h.mono (List.subset_cons_self _ _)
  have hfirst := simulates_generateExamVariantForGroup programTemplateMap hstudent
  have hboth := hfirst.bind fun files' hfiles' =>
    simulates_generateExamVariantForGroup programTemplateMap (by
      rw [hfirst.files files' hfiles']
      refine hteacher.putAll_examFiles
        (saves_generateExamVariantForGroup group .student).isPrefix.subset ?_ ?_
      · refine fun hmem => templateName_notMem (groupDocuments_subset hgroup ?_)
        exact List.mem_cons.mpr (.inl (List.mem_singleton.mp hmem))
      · rw [List.disjoint_singleton]
        exact hnotMem)
  exact hboth.mapError.perform_examVariants group programTemplateMap

end

/-! ### The outputs -/

section

variable {programTemplates : JMap ProgramId ProgramTemplate}
  {outputs : JMap ProgramId (JMap Group ProgramOutput)}

theorem hasOutputs_of_isOutputs (houtputs : IsOutputs env outputs) {group : Group}
    (hgroup : IsGroup group) : HasOutputs outputs group := by
  intro programId values hlookup
  rw [Option.isSome_iff_exists]
  exact (houtputs.groups programId values hlookup group).mpr hgroup

theorem canWriteOutputs_ok_iff : canWriteOutputs machine path files = .ok ()
    ↔ machine.deletes (files.get (path ++ [jstr "outputs"])) = .ok ()
      ∧ files.HasParent (path ++ [jstr "outputs"]) := by
  unfold canWriteOutputs
  rw [except_bind_ok_iff]
  by_cases hparent : files.HasParent (path ++ [jstr "outputs"])
  · simp only [hparent, if_true, and_true]
    exact ⟨fun ⟨_, h⟩ => h, fun h => ⟨(), h⟩⟩
  · simp [hparent]

/-- Writing the outputs fails only where the directory `outputs` cannot be replaced. -/
theorem result_generateFilesWithProgramsOutputs_files (houtputs : IsOutputs env outputs) :
    (generateFilesWithProgramsOutputs machine outputs path files).map (fun _ => ())
      = (canWriteOutputs machine path files).mapError .runtimeException := by
  have hA : HasOutputs outputs Group.A := hasOutputs_of_isOutputs houtputs (.inl rfl)
  have hB : HasOutputs outputs Group.B := hasOutputs_of_isOutputs houtputs (.inr rfl)
  cases hdeletes : machine.deletes (files.get (path ++ [jstr "outputs"])) with
  | error e =>
    unfold generateFilesWithProgramsOutputs deleteDirectory canWriteOutputs
    dsimp only
    rw [hdeletes]
    rfl
  | ok =>
    by_cases hparent : files.HasParent (path ++ [jstr "outputs"])
    · rw [generateFilesWithProgramsOutputs_ok_iff.mpr ⟨hdeletes, hparent, hA, hB, rfl⟩]
      unfold canWriteOutputs
      rw [hdeletes, if_pos hparent]
      rfl
    · have hcreate : createDirectory (path ++ [jstr "outputs"])
          (files.put (path ++ [jstr "outputs"]) .nothing) = .error .ioException := by
        unfold createDirectory FileTree.createDirectory
        rw [if_neg fun h => hparent ((hasParent_put _).mp h.1)]
        rfl
      unfold generateFilesWithProgramsOutputs deleteDirectory canWriteOutputs
      dsimp only
      rw [hdeletes, if_neg hparent]
      show Except.map _ (Except.mapError _ (createDirectory _ _ >>= _)) = _
      rw [hcreate]
      rfl

theorem describes_put_outputs (h : Describes machine template path env names files)
    (hnames : names ⊆ examDocuments) (u : Files Content) :
    Describes machine template path env names (files.put (path ++ [jstr "outputs"]) u) :=
  h.put (by decide) (fun hmem => outputsName_notMem (hnames hmem)) u

theorem generateAllExamVariantsOfGroup_eq (group : Group) :
    ExamGeneratorNg.generateAllExamVariantsOfGroup env programTemplates outputs group = (do
      let programOutputMapEx ← extractGroupOutputs outputs group
      let evaluatedProgramTemplateMap ←
        toMap programOutputMapEx (evaluateProgramTemplate programTemplates)
      ExamGeneratorNg.generateFilesWithProgramsOutputs env outputs
      ExamGeneratorNg.generateExamVariantsForGroup env evaluatedProgramTemplateMap group) := by
  refine bind_congr fun programOutputMapEx => ?_
  refine congrArg (fun mapper => toMap programOutputMapEx mapper >>= _) ?_
  funext programId programOutput
  unfold evaluateProgramTemplate
  cases programTemplates.lookup programId <;> rfl

theorem silent_evaluateProgramTemplate (programOutputMap : JMap ProgramId ProgramOutput) :
    Silent (toMap programOutputMap (evaluateProgramTemplate programTemplates)) := by
  refine Silent.collectToMap (fun programId programOutput => ?_) _ _
  unfold evaluateProgramTemplate
  cases programTemplates.lookup programId
  · exact Effectful.effects_ofExcept _
  · exact Effectful.effects_pure _

/-- The part of the command line that is done for a group. -/
theorem simulates_generateAllExamVariantsOfGroup (programTemplates : JMap ProgramId ProgramTemplate)
    (houtputs : IsOutputs env outputs)
    (hwrite : env.writeOutputs = canWriteOutputs machine path files) {group : Group}
    (hgroup : IsGroup group)
    (h : Describes machine template path env (groupDocuments group) files) :
    Simulates machine template (files.put (path ++ [jstr "outputs"]) (outputsTree machine outputs))
      path (generateAllExamVariantsOfGroup machine path programTemplates outputs group files)
      (ExamGeneratorNg.generateAllExamVariantsOfGroup env programTemplates outputs group) := by
  have hsilent : ∀ {α : Type} {m : Effectful α}, Silent m → SavesNothing m := fun h =>
    savesNothing_of_effects_eq_nil h
  unfold generateAllExamVariantsOfGroup
  rw [generateAllExamVariantsOfGroup_eq]
  refine Simulates.before_result (hsilent (silent_extractGroupOutputs group)) fun _ _ => ?_
  refine Simulates.before_result (hsilent (silent_evaluateProgramTemplate _)) fun _ _ => ?_
  refine Simulates.before (hsilent silent_generateFilesWithProgramsOutputs) ?_ ?_
  · rw [result_generateFilesWithProgramsOutputs_files houtputs,
      result_generateFilesWithProgramsOutputs fun _ => extractGroupOutputs_ok houtputs, hwrite]
    cases canWriteOutputs machine path files <;> rfl
  · intro files' _ hfiles' _
    obtain ⟨-, -, -, -, rfl⟩ := generateFilesWithProgramsOutputs_ok_iff.mp hfiles'
    refine simulates_generateExamVariantsForGroup hgroup ?_
    exact describes_put_outputs h (groupDocuments_subset hgroup) _

theorem disjoint_groupDocuments : (groupDocuments Group.B).Disjoint (groupDocuments Group.A) := by
  intro name hB hA
  exact (List.nodup_append.mp nodup_examDocuments).2.2 name hA name hB rfl

/-- The loop over the groups.  A directory `outputs` that has been written can be replaced again
for the next group. -/
theorem simulates_generateAllExamVariantsFrom
    (hdelete : ∀ children, machine.deletes (.directory children) = .ok ())
    (houtputs : IsOutputs env outputs)
    (hwrite : env.writeOutputs = canWriteOutputs machine path files)
    (h : Describes machine template path env examDocuments files) :
    Simulates machine template (files.put (path ++ [jstr "outputs"]) (outputsTree machine outputs))
      path (generateAllExamVariantsFrom machine path programTemplates outputs files)
      (ExamGeneratorNg.generateAllExamVariantsFrom env programTemplates outputs) := by
  have hA := simulates_generateAllExamVariantsOfGroup programTemplates
    houtputs hwrite (.inl rfl) (h.mono (groupDocuments_subset (.inl rfl)))
  refine hA.bind fun filesA hfilesA => ?_
  have hokA := hA.ok_iff.mp ⟨filesA, hfilesA⟩
  have hwriteA := writeOutputs_of_group_ok hokA
  have hfilesA' := hA.files filesA hfilesA
  have houtputsName : jstr "outputs" ∉ (examFiles machine template
      (ExamGeneratorNg.generateAllExamVariantsOfGroup env programTemplates outputs
        Group.A).effects).map Prod.fst := by
    rw [map_fst_examFiles]
    exact fun hmem => outputsName_notMem (groupDocuments_subset (.inl rfl)
      ((saves_generateAllExamVariantsOfGroup Group.A).isPrefix.subset hmem))
  -- what is there now can be replaced by the same
  have hsame : filesA.put (path ++ [jstr "outputs"]) (outputsTree machine outputs) = filesA := by
    rw [hfilesA', ← putAll_put houtputsName, put_put]
  have hwriteB : env.writeOutputs = canWriteOutputs machine path filesA := by
    obtain ⟨-, hparent⟩ := canWriteOutputs_ok_iff.mp (hwrite.symm.trans hwriteA)
    have htree : filesA.get (path ++ [jstr "outputs"]) = outputsTree machine outputs := by
      rw [hfilesA', get_putAll_of_notMem houtputsName, get_put hparent]
    rw [hwriteA, eq_comm, canWriteOutputs_ok_iff, htree, hfilesA', hasParent_putAll, hasParent_put]
    exact ⟨hdelete _, hparent⟩
  have hdescribes : Describes machine template path env (groupDocuments Group.B) filesA := by
    rw [hfilesA']
    refine Describes.putAll_examFiles (describes_put_outputs
      (h.mono (groupDocuments_subset (.inr rfl))) (groupDocuments_subset (.inr rfl)) _)
      (saves_generateAllExamVariantsOfGroup Group.A).isPrefix.subset ?_ disjoint_groupDocuments
    exact fun hmem => templateName_notMem (groupDocuments_subset (.inl rfl) hmem)
  have hB := simulates_generateAllExamVariantsOfGroup programTemplates
    houtputs hwriteB (.inr rfl) hdescribes
  rw [hsame] at hB
  exact hB.bind fun filesB hfilesB => simulates_pure

end

/-! ### The exams have no diagnostics -/

section

variable (env : Environment)

theorem noDiagnostics_generateExamVariantForGroup
    (programTemplateMap : JMap ProgramId EvaluatedProgramTemplate) (group : Group)
    (variant : ExamVariant) :
    NoDiagnostics (ExamGeneratorNg.generateExamVariantForGroup env programTemplateMap group
      variant) := by
  refine NoDiagnostics.bind (Silent.noDiagnostics rfl) fun _ => ?_
  refine NoDiagnostics.bind (Silent.noDiagnostics rfl) fun _ => ?_
  refine NoDiagnostics.bind (Silent.noDiagnostics rfl) fun _ => ?_
  refine NoDiagnostics.bind (Silent.noDiagnostics rfl) fun _ => ?_
  exact noDiagnostics_perform nofun

theorem noDiagnostics_generateAllExamVariantsOfGroup
    (programTemplates : JMap ProgramId ProgramTemplate)
    (outputs : JMap ProgramId (JMap Group ProgramOutput)) (group : Group) :
    NoDiagnostics (ExamGeneratorNg.generateAllExamVariantsOfGroup env programTemplates outputs
      group) := by
  rw [generateAllExamVariantsOfGroup_eq]
  refine (silent_extractGroupOutputs group).noDiagnostics.bind fun _ => ?_
  refine (silent_evaluateProgramTemplate _).noDiagnostics.bind fun _ => ?_
  refine silent_generateFilesWithProgramsOutputs.noDiagnostics.bind fun _ => ?_
  refine NoDiagnostics.bind (noDiagnostics_perform nofun) fun _ => ?_
  exact NoDiagnostics.bind (noDiagnostics_generateExamVariantForGroup env _ _ _) fun _ =>
    noDiagnostics_generateExamVariantForGroup env _ _ _

theorem noDiagnostics_generateAllExamVariantsFrom
    (programTemplates : JMap ProgramId ProgramTemplate)
    (outputs : JMap ProgramId (JMap Group ProgramOutput)) :
    NoDiagnostics (ExamGeneratorNg.generateAllExamVariantsFrom env programTemplates outputs) :=
  NoDiagnostics.bind (noDiagnostics_generateAllExamVariantsOfGroup env _ _ _) fun _ =>
    NoDiagnostics.bind (noDiagnostics_generateAllExamVariantsOfGroup env _ _ _) fun _ =>
      Silent.noDiagnostics rfl

end

/-! ### The whole command line -/

section

variable (machine path files)

/-- The files after the command line has ended well, where the other model has some effects. -/
def Generated (env : Environment) (effects : List Effect) (files' : Files Content) : Prop :=
  ∃ outputs, IsOutputs env outputs ∧ files'
    = (files.put (path ++ [jstr "outputs"]) (outputsTree machine outputs)).putAll path
        (examFiles machine (files.get (path ++ [templateName])) effects)

/-- A computation that has diagnostics and changes files does what a computation of the other model
does. -/
structure Refines (env : Environment) (r : Effectful (Files Content)) (m : Effectful Unit) :
    Prop where
  result : r.result.map (fun _ => ()) = m.result
  diagnostics : r.effects = m.effects.filter Effect.isDiagnostic
  files : ∀ files', r.result = .ok files' → Generated machine path files env m.effects files'

end

/-- What comes first is the same, and has diagnostics only. -/
theorem Refines.bind {α : Type} {y : Effectful α} {r : α → Effectful (Files Content)}
    {m : α → Effectful Unit} (hy : OnlyDiagnostics y)
    (h : ∀ a, y.result = .ok a → Refines machine path files env (r a) (m a)) :
    Refines machine path files env (y >>= r) (y >>= m) := by
  have hfilter : y.effects.filter Effect.isDiagnostic = y.effects := by
    rw [List.filter_eq_self]
    intro effect heffect
    obtain ⟨diagnostic, rfl⟩ := hy effect heffect
    rfl
  rcases effects_bind y m with ⟨e, he, heffects, hend⟩ | ⟨a, ha, heffects, hend⟩
  · rcases effects_bind y r with ⟨e', he', heffects', hend'⟩ | ⟨a, ha, -, -⟩
    · obtain rfl : e = e' := Except.error.inj (he.symm.trans he')
      refine ⟨by rw [hend, hend']; rfl, by rw [heffects, heffects', hfilter], ?_⟩
      rw [hend']
      exact nofun
    · rw [he] at ha
      cases ha
  · obtain ⟨hresult, hdiagnostics, hfiles⟩ := h a ha
    have heffects' := Effectful.effects_bind_of_ok ha r
    have hend' := result_bind_of_ok ha r
    refine ⟨by rw [hend, hend', hresult], ?_, fun files' hfiles' => ?_⟩
    · rw [heffects, heffects', List.filter_append, hfilter, hdiagnostics]
    · obtain ⟨outputs, houtputs, rfl⟩ := hfiles files' (hend' ▸ hfiles')
      refine ⟨outputs, houtputs, ?_⟩
      rw [heffects, examFiles_append, examFiles_eq_nil hy.savesNothing, List.nil_append]

theorem Refines.of_simulates {r : Except JavaException (Files Content)} {m : Effectful Unit}
    {outputs : JMap ProgramId (JMap Group ProgramOutput)} (houtputs : IsOutputs env outputs)
    (h : Simulates machine (files.get (path ++ [templateName]))
      (files.put (path ++ [jstr "outputs"]) (outputsTree machine outputs)) path r m)
    (hm : NoDiagnostics m) : Refines machine path files env (Effectful.ofExcept r) m where
  result := h.result
  diagnostics := by
    rw [Effectful.effects_ofExcept, eq_comm, List.filter_eq_nil_iff]
    exact hm
  files files' hfiles' := ⟨outputs, houtputs, h.files files' hfiles'⟩

theorem describes_environmentOf : Describes machine (files.get (path ++ [templateName])) path
    (environmentOf machine path files) names files :=
  ⟨rfl, rfl, rfl, fun _ _ => rfl⟩

/-- **The command line does to the files of a workspace what it does to the world they make up at
the start**: it ends in the same way, with the same diagnostics, and afterwards the directory
`outputs` and the exams have been replaced, and nothing else.  It does not matter that the template
is read again after files have been written. -/
theorem refines_generateAllExamVariants (path : FilePath) (files : Files Content)
    (hdelete : ∀ children, machine.deletes (.directory children) = .ok ()) :
    Refines machine path files (environmentOf machine path files)
      (generateAllExamVariants machine path files)
      (ExamGeneratorNg.generateAllExamVariants (environmentOf machine path files)) := by
  refine Refines.bind (onlyDiagnostics_ofExcept _) fun programTemplates hload => ?_
  refine Refines.bind (onlyDiagnostics_compileProgramTemplates _ _) fun _ hcompile => ?_
  refine Refines.bind (onlyDiagnostics_runPrograms _) fun processOutputs hrun => ?_
  have houtputs := isOutputs_extractStandardOutputs
    (isTable_runPrograms (isTable_compileProgramTemplates hload hcompile) hrun)
  exact Refines.of_simulates houtputs
    (simulates_generateAllExamVariantsFrom hdelete houtputs rfl describes_environmentOf)
    (noDiagnostics_generateAllExamVariantsFrom _ _ _)

end Workspace

end ExamGeneratorNg
