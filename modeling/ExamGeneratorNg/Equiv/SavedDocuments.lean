import ExamGeneratorNg.Equiv.TaskOutcome

/-!
# The documents that are saved

The command line saves the documents of the exams in a fixed order, and stops at the first one that
it cannot save (`commandLine_saves`).  A `ProjectTask` saves each document at most once
(`savedDocuments_nodup`).
-/

namespace ExamGeneratorNg

open Promise

variable {env : Environment} {α β : Type}

/-! ### Saving in order -/

/-- The names under which documents were saved. -/
def savedDocuments (effects : List Effect) : List JString :=
  effects.filterMap fun effect =>
    match effect with
    | .document fileName _ => some fileName
    | _ => none

theorem savedDocuments_append (effects effects' : List Effect) :
    savedDocuments (effects ++ effects') = savedDocuments effects ++ savedDocuments effects' :=
  List.filterMap_append

/-- The computation saves documents under these names in this order: all of them if it ends well,
and only some of the first if it throws. -/
structure Saves (m : Effectful α) (fileNames : List JString) : Prop where
  isPrefix : savedDocuments m.effects <+: fileNames
  ok_iff : (∃ a, m.result = .ok a) ↔ savedDocuments m.effects = fileNames

/-- The computation saves no document. -/
def SavesNothing (m : Effectful α) : Prop := savedDocuments m.effects = []

theorem OnlyDiagnostics.savesNothing {m : Effectful α} (h : OnlyDiagnostics m) :
    SavesNothing m := by
  unfold SavesNothing savedDocuments
  rw [List.filterMap_eq_nil_iff]
  intro effect heffect
  obtain ⟨diagnostic, rfl⟩ := h effect heffect
  rfl

theorem saves_pure (a : α) : Saves (pure a) [] := ⟨List.prefix_rfl, by simp [savedDocuments]⟩

theorem Saves.wrapException {m : Effectful α} {fileNames : List JString} (h : Saves m fileNames) :
    Saves m.wrapException fileNames := by
  refine ⟨h.isPrefix, Iff.trans ?_ h.ok_iff⟩
  show (∃ a, m.result.mapError _ = .ok a) ↔ _
  cases m.result with
  | ok a => simp [Except.mapError]
  | error e => simp [Except.mapError]

/-- How a computation goes on. -/
theorem effects_bind (m : Effectful α) (f : α → Effectful β) :
    (∃ e, m.result = .error e ∧ (m >>= f).effects = m.effects ∧ (m >>= f).result = .error e)
    ∨ ∃ a, m.result = .ok a ∧ (m >>= f).effects = m.effects ++ (f a).effects
      ∧ (m >>= f).result = (f a).result := by
  show (∃ e, _ ∧ (Effectful.bind m f).effects = _ ∧ (Effectful.bind m f).result = _)
    ∨ ∃ a, _ ∧ (Effectful.bind m f).effects = _ ∧ (Effectful.bind m f).result = _
  unfold Effectful.bind
  cases hresult : m.result with
  | error e => exact .inl ⟨e, rfl, rfl, rfl⟩
  | ok a => exact .inr ⟨a, rfl, rfl, rfl⟩

theorem Saves.bind {m : Effectful α} {f : α → Effectful β} {fileNames fileNames' : List JString}
    (hm : Saves m fileNames) (hf : ∀ a, Saves (f a) fileNames') :
    Saves (m >>= f) (fileNames ++ fileNames') := by
  rcases effects_bind m f with ⟨e, he, heffects, hresult⟩ | ⟨a, ha, heffects, hresult⟩
  · -- what was saved is shorter than `fileNames`
    have hne : savedDocuments m.effects ≠ fileNames := by
      rw [ne_eq, ← hm.ok_iff, he]
      nofun
    rw [← heffects] at hne
    refine ⟨?_, ?_⟩
    · rw [heffects]
      exact hm.isPrefix.trans (List.prefix_append _ _)
    · rw [hresult, heffects]
      refine iff_of_false nofun fun heq => ?_
      have hlength := hm.isPrefix.length_le
      rw [heq, List.length_append] at hlength
      have hnil : fileNames' = [] := List.eq_nil_of_length_eq_zero (by omega)
      rw [hnil, List.append_nil, ← heffects] at heq
      exact hne heq
  · have hsaved : savedDocuments (m >>= f).effects = fileNames ++ savedDocuments (f a).effects := by
      rw [heffects, savedDocuments_append, hm.ok_iff.mp ⟨a, ha⟩]
    refine ⟨?_, ?_⟩
    · rw [hsaved]
      exact (List.prefix_append_right_inj _).mpr (hf a).isPrefix
    · rw [hsaved, hresult, List.append_cancel_left_eq]
      exact (hf a).ok_iff

theorem SavesNothing.bind {m : Effectful α} {f : α → Effectful β} {fileNames : List JString}
    (hm : SavesNothing m) (hne : fileNames ≠ []) (hf : ∀ a, Saves (f a) fileNames) :
    Saves (m >>= f) fileNames := by
  rcases effects_bind m f with ⟨e, he, heffects, hresult⟩ | ⟨a, ha, heffects, hresult⟩
  · refine ⟨?_, ?_⟩
    · rw [heffects, hm]
      exact List.nil_prefix
    · rw [heffects, hresult, hm]
      exact iff_of_false nofun (Ne.symm hne)
  · have hsaved : savedDocuments (m >>= f).effects = savedDocuments (f a).effects := by
      rw [heffects, savedDocuments_append, hm, List.nil_append]
    refine ⟨?_, ?_⟩
    · rw [hsaved]
      exact (hf a).isPrefix
    · rw [hsaved, hresult]
      exact (hf a).ok_iff

/-! ### The documents of an exam -/

/-- The name of a document. -/
def documentName (group : Group) (variant : ExamVariant) : JString :=
  jstr "exam_" ++ group.getIdentifier ++ jstr "_" ++ variant.name ++ jstr ".odt"

/-- The documents of a group. -/
def groupDocuments (group : Group) : List JString :=
  [documentName group .student, documentName group .teacher]

theorem documentName_mem_groupDocuments (group : Group) (variant : ExamVariant) :
    documentName group variant ∈ groupDocuments group := by
  cases variant
  · exact List.mem_cons_self
  · exact List.mem_cons_of_mem _ List.mem_cons_self

variable {m : JMap ProgramId EvaluatedProgramTemplate}

theorem savesNothing_ofExcept (result : Except JavaException α) :
    SavesNothing (Effectful.ofExcept result) := rfl

theorem saves_generateExamVariantForGroup (group : Group) (variant : ExamVariant) :
    Saves (generateExamVariantForGroup env m group variant) [documentName group variant] := by
  unfold generateExamVariantForGroup
  refine SavesNothing.bind (savesNothing_ofExcept _) (by simp) fun examTemplate => ?_
  refine SavesNothing.bind (savesNothing_ofExcept _) (by simp) fun placeholderRefs => ?_
  refine SavesNothing.bind (savesNothing_ofExcept _) (by simp) fun _ => ?_
  refine SavesNothing.bind (savesNothing_ofExcept _) (by simp) fun _ => ?_
  exact ⟨List.prefix_rfl, iff_of_true ⟨(), rfl⟩ rfl⟩

theorem saves_generateExamVariantsForGroup (group : Group) :
    Saves (generateExamVariantsForGroup env m group) (groupDocuments group) := by
  unfold generateExamVariantsForGroup
  refine SavesNothing.bind rfl (by simp [groupDocuments]) fun _ => Saves.wrapException ?_
  exact (saves_generateExamVariantForGroup group .student).bind fun _ =>
    saves_generateExamVariantForGroup group .teacher

/-! ### The command line -/

/-- The documents of all exams, in the order in which the command line makes them. -/
def examDocuments : List JString := groupDocuments Group.A ++ groupDocuments Group.B

section

variable {programTemplates : JMap ProgramId ProgramTemplate}
  {outputs : JMap ProgramId (JMap Group ProgramOutput)}

theorem saves_generateAllExamVariantsOfGroup (group : Group) :
    Saves (generateAllExamVariantsOfGroup env programTemplates outputs group)
      (groupDocuments group) := by
  have hne : groupDocuments group ≠ [] := by simp [groupDocuments]
  unfold generateAllExamVariantsOfGroup
  refine SavesNothing.bind ?_ hne fun programOutputMapEx => ?_
  · exact (onlyDiagnostics_extractGroupOutputs group).savesNothing
  refine SavesNothing.bind ?_ hne fun evaluated => ?_
  · exact (onlyDiagnostics_evaluated programOutputMapEx).savesNothing
  refine SavesNothing.bind ?_ hne fun _ => saves_generateExamVariantsForGroup group
  exact onlyDiagnostics_generateFilesWithProgramsOutputs.savesNothing

theorem saves_generateAllExamVariantsFrom :
    Saves (generateAllExamVariantsFrom env programTemplates outputs) examDocuments := by
  show Saves (generateAllExamVariantsOfGroup env programTemplates outputs Group.A >>= fun _ =>
    generateAllExamVariantsOfGroup env programTemplates outputs Group.B >>= fun _ => pure ()) _
  refine (saves_generateAllExamVariantsOfGroup Group.A).bind fun _ => ?_
  rw [← List.append_nil (groupDocuments Group.B)]
  exact (saves_generateAllExamVariantsOfGroup Group.B).bind fun _ => saves_pure ()

end

theorem saves_generateAllExamVariants : Saves (generateAllExamVariants env) examDocuments := by
  have hne : examDocuments ≠ [] := by simp [examDocuments, groupDocuments]
  unfold generateAllExamVariants
  refine SavesNothing.bind (savesNothing_ofExcept _) hne fun programTemplates => ?_
  refine SavesNothing.bind ?_ hne fun compilerOutputs => ?_
  · exact (onlyDiagnostics_compileProgramTemplates _ _).savesNothing
  refine SavesNothing.bind ?_ hne fun processOutputs => saves_generateAllExamVariantsFrom
  exact (onlyDiagnostics_runPrograms _).savesNothing

theorem mem_savedDocuments {effects : List Effect} {fileName : JString} :
    fileName ∈ savedDocuments effects ↔ ∃ contentDom, .document fileName contentDom ∈ effects := by
  unfold savedDocuments
  rw [List.mem_filterMap]
  constructor
  · rintro ⟨effect, hmem, heq⟩
    cases effect with
    | document fileName' contentDom =>
      cases heq
      exact ⟨contentDom, hmem⟩
    | _ => cases heq
  · rintro ⟨contentDom, hmem⟩
    exact ⟨_, hmem, rfl⟩

/-- What is not a diagnostic was done by the rest of a computation that starts with diagnostics. -/
theorem document_of_bind {x : Effectful α} {f : α → Effectful β} {fileName : JString}
    {contentDom : Node} (hx : OnlyDiagnostics x)
    (h : .document fileName contentDom ∈ (x >>= f).effects) :
    ∃ a, x.result = .ok a ∧ .document fileName contentDom ∈ (f a).effects := by
  rcases (Effectful.mem_effects_bind x f _).mp h with h | h
  · obtain ⟨diagnostic, heq⟩ := hx _ h
    cases heq
  · exact h

/-- **The command line saves all exams or stops at the first that it cannot save**: the documents
are saved in order, all four exactly if it ends well, and none before every program of the
workspace has been compiled and has exited with status 0 for both groups. -/
theorem commandLine_saves :
    savedDocuments (generateAllExamVariants env).effects <+: examDocuments
    ∧ ((generateAllExamVariants env).result = .ok ()
      ↔ savedDocuments (generateAllExamVariants env).effects = examDocuments)
    ∧ (savedDocuments (generateAllExamVariants env).effects ≠ [] → ProgramsRun env) := by
  have hsaves : Saves (generateAllExamVariants env) examDocuments := saves_generateAllExamVariants
  refine ⟨hsaves.isPrefix, ?_, fun hne => ?_⟩
  · rw [← hsaves.ok_iff]
    constructor
    · exact fun h => ⟨(), h⟩
    · rintro ⟨⟨⟩, h⟩
      exact h
  · obtain ⟨fileName, hmem⟩ := List.exists_mem_of_ne_nil _ hne
    obtain ⟨contentDom, h⟩ := mem_savedDocuments.mp hmem
    obtain ⟨programTemplates, hload, h⟩ := document_of_bind (onlyDiagnostics_ofExcept _) h
    obtain ⟨compilerOutputs, hcompile, h⟩ :=
      document_of_bind (onlyDiagnostics_compileProgramTemplates _ _) h
    obtain ⟨processOutputs, hrun, h⟩ := document_of_bind (onlyDiagnostics_runPrograms _) h
    exact (isOutputs_extractStandardOutputs
      (isTable_runPrograms (isTable_compileProgramTemplates hload hcompile) hrun)).programsRun

/-! ### The graphical interface -/

/-- Only the tasks that make exams save documents, each those of its group. -/
theorem savedDocuments_runSupplier (env : Environment) (supplier : Supplier) :
    savedDocuments (runSupplier env supplier).effects = []
    ∨ ∃ group, supplier.promise = .documents group
      ∧ savedDocuments (runSupplier env supplier).effects <+: groupDocuments group := by
  cases supplier with
  | loadProgramTemplates => exact .inl rfl
  | compileProgramTemplate programId programTemplate group =>
    exact .inl (onlyDiagnostics_compileProgramTemplate programId programTemplate group).savesNothing
  | runProgram programId compilerOutput group =>
    exact .inl (onlyDiagnostics_runProgram programId compilerOutput group).savesNothing
  | generateExamVariants group programPipelineMap processOutputs =>
    refine .inr ⟨group, rfl, ?_⟩
    have hsaves : Saves (runSupplier env
        (.generateExamVariants group programPipelineMap processOutputs)) (groupDocuments group) :=
      SavesNothing.bind (savesNothing_ofExcept _) (by simp [groupDocuments]) fun _ =>
        saves_generateExamVariantsForGroup group
    exact hsaves.isPrefix

theorem nodup_examDocuments : examDocuments.Nodup := by decide

theorem nodup_groupDocuments {group : Group} (hgroup : IsGroup group) :
    (groupDocuments group).Nodup := by
  rcases hgroup with rfl | rfl
  · exact (List.nodup_append.mp nodup_examDocuments).1
  · exact (List.nodup_append.mp nodup_examDocuments).2.1

/-- A document is one of one group only. -/
theorem group_of_mem_groupDocuments {group group' : Group} (hgroup : IsGroup group)
    (hgroup' : IsGroup group') {fileName : JString} (h : fileName ∈ groupDocuments group)
    (h' : fileName ∈ groupDocuments group') : group = group' := by
  have hdisjoint := (List.nodup_append.mp nodup_examDocuments).2.2
  rcases hgroup with rfl | rfl <;> rcases hgroup' with rfl | rfl
  · rfl
  · exact absurd rfl (hdisjoint _ h _ h')
  · exact absurd rfl (hdisjoint _ h' _ h)
  · rfl

theorem groupDocuments_subset {group : Group} (hgroup : IsGroup group) :
    groupDocuments group ⊆ examDocuments := by
  rcases hgroup with rfl | rfl
  · exact List.subset_append_left _ _
  · exact List.subset_append_right _ _

/-- The promises of the tasks that have ended are all different. -/
theorem nodup_promises {s : TaskState} {past : List (Event Callback Supplier)}
    (h : (projectTask env).History newProjectTask past s) :
    ((endedTasks past).map Supplier.promise).Nodup := by
  have hnames : ∀ past : List (Event Callback Supplier),
      ((endedTasks past).map fun supplier => EventName.task supplier.promise).Sublist
        (past.map eventName) := by
    intro past
    induction past with
    | nil => exact List.Sublist.refl _
    | cons event past ih =>
      cases event with
      | called callback => exact ih.cons _
      | ended supplier => exact ih.cons_cons _
  have hnodup := (hnames past).nodup (Multiset.nodup_add.mp (nodup_of_history h).1).1
  rw [show (fun supplier : Supplier => EventName.task supplier.promise)
    = EventName.task ∘ Supplier.promise from rfl, ← List.map_map] at hnodup
  exact hnodup.of_map _

/-- What is saved by a task that has ended is a document of the group of its promise. -/
theorem Account.exists_group {s : TaskState} {past : List (Event Callback Supplier)}
    (h : Account env past s) {supplier : Supplier} (hended : supplier ∈ endedTasks past)
    {fileName : JString} (hmem : fileName ∈ savedDocuments (runSupplier env supplier).effects) :
    ∃ group, IsGroup group ∧ supplier.promise = .documents group
      ∧ fileName ∈ groupDocuments group := by
  rcases savedDocuments_runSupplier env supplier with hnil | ⟨group, hpromise, hprefix⟩
  · rw [hnil] at hmem
    cases hmem
  · refine ⟨group, ?_, hpromise, hprefix.subset hmem⟩
    have hdue := h.due supplier hended
    cases supplier <;> cases hpromise
    exact hdue.1

/-- What has been saved was saved by a task that has ended. -/
theorem Account.exists_ended {s : TaskState} {past : List (Event Callback Supplier)}
    (h : Account env past s) {fileName : JString}
    (hmem : fileName ∈ savedDocuments s.world.effects) :
    ∃ supplier ∈ endedTasks past, ∃ group, IsGroup group ∧ supplier.promise = .documents group
      ∧ fileName ∈ groupDocuments group := by
  obtain ⟨contentDom, hmem⟩ := mem_savedDocuments.mp hmem
  rw [h.effects, List.mem_flatMap] at hmem
  obtain ⟨supplier, hended, hmem⟩ := hmem
  exact ⟨supplier, hended, h.exists_group hended (mem_savedDocuments.mpr ⟨contentDom, hmem⟩)⟩

theorem Account.savedDocuments_subset {s : TaskState} {past : List (Event Callback Supplier)}
    (h : Account env past s) : savedDocuments s.world.effects ⊆ examDocuments := by
  intro fileName hmem
  obtain ⟨supplier, -, group, hgroup, -, hname⟩ := h.exists_ended hmem
  exact groupDocuments_subset hgroup hname

/-- **A task saves each document at most once**, and no others than those of the exams of the two
groups, at any time of any run. -/
theorem savedDocuments_nodup {s : TaskState}
    (hreachable : (projectTask env).Reachable newProjectTask s) :
    (savedDocuments s.world.effects).Nodup ∧ savedDocuments s.world.effects ⊆ examDocuments := by
  obtain ⟨past, hpast⟩ := hreachable.history
  have haccount := account_of_history hpast
  refine ⟨?_, haccount.savedDocuments_subset⟩
  have hsaved : savedDocuments s.world.effects = (endedTasks past).flatMap fun supplier =>
      savedDocuments (runSupplier env supplier).effects := by
    rw [haccount.effects]
    exact List.filterMap_flatMap
  rw [hsaved, List.nodup_flatMap]
  constructor
  · intro supplier hended
    rcases savedDocuments_runSupplier env supplier with hnil | ⟨group, hpromise, hprefix⟩
    · rw [hnil]
      exact List.nodup_nil
    · refine hprefix.sublist.nodup (nodup_groupDocuments ?_)
      have hdue := haccount.due supplier hended
      cases supplier <;> cases hpromise
      exact hdue.1
  · refine (List.pairwise_map.mp (nodup_promises hpast)).imp_of_mem ?_
    intro supplier supplier' hended hended' hne
    refine List.disjoint_left.mpr ?_
    intro fileName hmem hmem'
    obtain ⟨group, hg, hpromise, hname⟩ := haccount.exists_group hended hmem
    obtain ⟨group', hg', hpromise', hname'⟩ := haccount.exists_group hended' hmem'
    rw [hpromise, hpromise', group_of_mem_groupDocuments hg hg' hname hname'] at hne
    exact hne rfl

/-- A program that exits with status 0. -/
theorem savedDocuments_nodup_example :
    (savedDocuments (oneProgramRun 0).world.effects).Nodup
      ∧ savedDocuments (oneProgramRun 0).world.effects ⊆ examDocuments :=
  savedDocuments_nodup (reachable_oneProgramRun 0)

end ExamGeneratorNg
