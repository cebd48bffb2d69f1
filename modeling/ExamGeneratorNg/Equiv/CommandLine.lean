import ExamGeneratorNg.Equiv.SavedDocuments

/-!
# The command line and the graphical interface

Where the command line ends well, every complete run of a `ProjectTask` has the same diagnostics
and saves the same documents, each of them once (`same_effects`); and the command line ends well
exactly if a `ProjectTask` succeeds and generates the documents of both groups
(`commandLine_ok_iff`).

Both do the same tasks, in different orders: a task is named by its promise, and its effects are
determined by the workspace (`IsTaskEffects`).
-/

namespace ExamGeneratorNg

open Promise

variable {env : Environment} {s : TaskState} {past : List (Event Callback Supplier)}

/-! ### The tasks of a workspace -/

/-- An effect that can be seen outside of the program. -/
def Effect.isVisible : Effect → Bool
  | examVariants _ _ => false
  | _ => true

def visibleEffects (effects : List Effect) : List Effect := effects.filter Effect.isVisible

variable (env)

/-- The promises of the tasks of a workspace. -/
def IsTask : PromiseRef → Prop
  | .programTemplates => True
  | .compilerOutput programId group =>
    (∃ programTemplate, Loaded env programId programTemplate) ∧ IsGroup group
  | .runOutput programId group =>
    (∃ programTemplate, Loaded env programId programTemplate) ∧ IsGroup group
  | .documents group => IsGroup group
  | _ => False

/-- The effects of the task of a promise, as far as they are visible. -/
def IsTaskEffects : PromiseRef → List Effect → Prop
  | .programTemplates, effects => effects = []
  | .compilerOutput programId group, effects =>
    ∃ programTemplate, Loaded env programId programTemplate ∧ effects
      = visibleEffects (compileProgramTemplate env programId programTemplate group).effects
  | .runOutput programId group, effects =>
    ∃ compilerOutput, IsCompilerOutput env programId group compilerOutput ∧ effects
      = visibleEffects (runProgram programId compilerOutput group).effects
  | .documents group, effects =>
    ∃ programTemplateMap, IsEvaluated env group programTemplateMap ∧ effects
      = visibleEffects (generateExamVariantsForGroup env programTemplateMap group).effects
  | _, _ => False

variable {env}

/-- The documents of a group do not depend on the map that holds its programs. -/
theorem visibleEffects_generateExamVariantsForGroup
    {m m' : JMap ProgramId EvaluatedProgramTemplate}
    (h : ∀ programId, m.lookup programId = m'.lookup programId) (group : Group) :
    visibleEffects (generateExamVariantsForGroup env m group).effects
      = visibleEffects (generateExamVariantsForGroup env m' group).effects := by
  unfold generateExamVariantsForGroup
  rw [Effectful.effects_bind_of_ok (a := ()) rfl, Effectful.effects_bind_of_ok (a := ()) rfl]
  simp only [generateExamVariantForGroup_congr h]
  rfl

theorem IsTaskEffects.unique {ref : PromiseRef} {effects effects' : List Effect}
    (h : IsTaskEffects env ref effects) (h' : IsTaskEffects env ref effects') :
    effects = effects' := by
  cases ref with
  | programTemplates => exact Eq.trans h (Eq.symm h')
  | compilerOutput programId group =>
    obtain ⟨programTemplate, hloaded, rfl⟩ := h
    obtain ⟨programTemplate', hloaded', rfl⟩ := h'
    rw [hloaded.unique hloaded']
  | runOutput programId group =>
    obtain ⟨compilerOutput, hcompiler, rfl⟩ := h
    obtain ⟨compilerOutput', hcompiler', rfl⟩ := h'
    rw [hcompiler.unique hcompiler']
  | documents group =>
    obtain ⟨m, hm, rfl⟩ := h
    obtain ⟨m', hm', rfl⟩ := h'
    exact visibleEffects_generateExamVariantsForGroup (hm.lookup_eq hm') group
  | _ => cases h

/-! ### The tasks of a complete run -/

theorem isTask_of_due {supplier : Supplier} (hdue : Due env supplier) :
    IsTask env supplier.promise := by
  cases supplier with
  | loadProgramTemplates => trivial
  | compileProgramTemplate programId programTemplate group =>
    exact ⟨⟨programTemplate, hdue.1⟩, hdue.2⟩
  | runProgram programId compilerOutput group =>
    obtain ⟨⟨programTemplate, hloaded, -⟩, hgroup⟩ := hdue
    exact ⟨⟨programTemplate, hloaded⟩, hgroup⟩
  | generateExamVariants group programPipelineMap processOutputs => exact hdue.1

/-- A task that is due and ends well has the effects of its promise. -/
theorem isTaskEffects_of_due {supplier : Supplier} (hdue : Due env supplier)
    {value : supplier.promise.Value} (hok : (runSupplier env supplier).result = .ok value) :
    IsTaskEffects env supplier.promise (visibleEffects (runSupplier env supplier).effects) := by
  cases supplier with
  | loadProgramTemplates => rfl
  | compileProgramTemplate programId programTemplate group =>
    exact ⟨programTemplate, hdue.1, rfl⟩
  | runProgram programId compilerOutput group => exact ⟨compilerOutput, hdue.1, rfl⟩
  | generateExamVariants group programPipelineMap processOutputs =>
    obtain ⟨evaluated, hevaluated, -⟩ := (Effectful.bind_ok_iff _ _ _).mp hok
    refine ⟨evaluated,
      isEvaluated_evaluatedProgramTemplateMap hdue.2.1 hdue.2.2 hevaluated, ?_⟩
    have heffects := Effectful.effects_bind_of_ok hevaluated fun programTemplateMap =>
      generateExamVariantsForGroup env programTemplateMap group
    exact congrArg visibleEffects heffects

/-- The task of a promise of a complete run has ended, once its promise has been settled. -/
theorem Complete.ended_of_settled (h : Complete env past s) {ref : PromiseRef}
    (href : ∃ supplier : Supplier, supplier.promise = ref) (hsettled : (s.outcome ref).isSome) :
    ref ∈ (endedTasks past).map Supplier.promise := by
  obtain ⟨supplier, rfl⟩ := href
  obtain ⟨supplier', hended, heq⟩ := h.account.ended supplier hsettled
  exact List.mem_map.mpr ⟨supplier', hended, heq⟩

/-- The callback that has supplied a task has been called. -/
theorem Complete.called_of_ended (h : Complete env past s) {programId : ProgramId} {group : Group}
    (hended : .runOutput programId group ∈ (endedTasks past).map Supplier.promise) :
    (s.outcome (.compilerOutput programId group)).isSome := by
  obtain ⟨supplier, hended, hpromise⟩ := List.mem_map.mp hended
  have hname : EventName.task (.runOutput programId group) ∈ past.map eventName :=
    List.mem_map.mpr ⟨_, mem_endedTasks.mp hended, by rw [← hpromise]; rfl⟩
  have hparent := (nodup_of_history h.history).2 _ (Multiset.mem_add.mpr (.inl hname)) _ rfl
  obtain ⟨event, hevent, heq⟩ := List.mem_map.mp hparent
  cases event with
  | ended supplier => cases heq
  | called callback =>
    cases callback <;> cases heq
    exact h.account.called _ hevent

/-- A complete run in which the documents of both groups are generated has ended exactly the tasks
of the workspace. -/
theorem Complete.mem_promises (h : Complete env past s)
    (hdocuments : ∀ group, IsGroup group → DocumentsGenerated s group) (ref : PromiseRef) :
    ref ∈ (endedTasks past).map Supplier.promise ↔ IsTask env ref := by
  constructor
  · intro hmem
    obtain ⟨supplier, hended, rfl⟩ := List.mem_map.mp hmem
    exact isTask_of_due (h.account.due supplier hended)
  · intro htask
    have hrun : ∀ programId group, IsTask env (.runOutput programId group) →
        .runOutput programId group ∈ (endedTasks past).map Supplier.promise := by
      rintro programId group ⟨⟨programTemplate, hloaded⟩, hgroup⟩
      obtain ⟨processOutput, hvalue, -⟩ := h.processOutput hloaded hgroup
      have hsettled := (caused_of_history h.history).processOutput _ _ _ hvalue
      exact h.ended_of_settled ⟨.runProgram programId ⟨[], none⟩ group, rfl⟩ hsettled
    cases ref with
    | programTemplates => exact List.mem_map.mpr ⟨_, h.load, rfl⟩
    | compilerOutput programId group =>
      refine h.ended_of_settled ⟨.compileProgramTemplate programId ⟨[]⟩ group, rfl⟩ ?_
      exact h.called_of_ended (hrun programId group htask)
    | runOutput programId group => exact hrun programId group htask
    | documents group =>
      refine h.ended_of_settled ⟨.generateExamVariants group ∅ ∅, rfl⟩ ?_
      have hok : s.outcome (.documents group) = some (.ok ()) :=
        h.inv.resolved _ _ (hdocuments group htask)
      rw [hok]
      rfl
    | _ => cases htask

/-! ### The tasks of the command line -/

/-- Lists whose elements correspond by their keys give the same when they are flattened, up to the
order. -/
theorem flatMap_perm_of_key {α β κ γ : Type} {key : α → κ} {key' : β → κ} {f : α → List γ}
    {f' : β → List γ} {xs : List α} {ys : List β} (hperm : (xs.map key).Perm (ys.map key'))
    (hf : ∀ x ∈ xs, ∀ y ∈ ys, key x = key' y → f x = f' y) :
    (xs.flatMap f).Perm (ys.flatMap f') := by
  induction xs generalizing ys with
  | nil =>
    obtain rfl : ys = [] := List.map_eq_nil_iff.mp hperm.nil_eq.symm
    exact List.Perm.refl _
  | cons x xs ih =>
    obtain ⟨y, hy, hkey⟩ := List.mem_map.mp (hperm.subset List.mem_cons_self)
    obtain ⟨before, after, rfl⟩ := List.append_of_mem hy
    have hrest : (xs.map key).Perm ((before ++ after).map key') := by
      have hmiddle := hperm.trans ((List.perm_middle (a := y)).map key')
      rw [List.map_cons, List.map_cons, hkey] at hmiddle
      exact hmiddle.cons_inv
    have hsame : f x = f' y := hf x List.mem_cons_self y hy hkey.symm
    have htail := ih hrest fun x' hx' y' hy' => by
      refine hf x' (List.mem_cons_of_mem _ hx') y' ?_
      simp only [List.mem_append, List.mem_cons] at hy' ⊢
      tauto
    rw [List.flatMap_cons, hsame]
    exact (htail.append_left _).trans ((List.perm_middle (a := y)).symm.flatMap_right f')

/-- Tasks by their promises, with their visible effects. -/
abbrev Steps := List (PromiseRef × List Effect)

/-- The compilations of `compileProgramTemplates`. -/
def compileSteps (env : Environment) (programTemplates : JMap ProgramId ProgramTemplate) : Steps :=
  programTemplates.entries.flatMap fun entry => [Group.A, Group.B].map fun group =>
    (.compilerOutput entry.1 group,
      visibleEffects (compileProgramTemplate env entry.1 entry.2 group).effects)

/-- The runs of `runPrograms`. -/
def runSteps (compilerOutputs : JMap ProgramId (JMap Group CompilerOutput)) : Steps :=
  compilerOutputs.entries.flatMap fun entry => entry.2.entries.map fun entry' =>
    (.runOutput entry.1 entry'.1, visibleEffects (runProgram entry.1 entry'.2 entry'.1).effects)

theorem visibleEffects_flatMap {α : Type} (xs : List α) (f : α → List Effect) :
    visibleEffects (xs.flatMap f) = xs.flatMap fun x => visibleEffects (f x) :=
  List.filter_flatMap

theorem visibleEffects_append (effects effects' : List Effect) :
    visibleEffects (effects ++ effects') = visibleEffects effects ++ visibleEffects effects' :=
  List.filter_append _ _

/-- What `collect(toMap(…))` does with a mapper that gives no `null`, if it ends well. -/
theorem effects_collectToMap_some {K V₁ V₂ : Type} [DecidableEq K]
    {entries : List (Entry K V₁)} (hnodup : entries.NodupKeys)
    {f : K → V₁ → Effectful V₂} {inputMap outputMap : JMap K V₂}
    (h : (collectToMap (fun k v => some <$> f k v) entries inputMap).result = .ok outputMap) :
    (collectToMap (fun k v => some <$> f k v) entries inputMap).effects
        = entries.flatMap (fun entry => (f entry.1 entry.2).effects)
    ∧ ∀ entry ∈ entries, ∃ w, (f entry.1 entry.2).result = .ok w := by
  constructor
  · rw [effects_collectToMap h]
    simp only [Effectful.effects_map]
  · intro entry hentry
    obtain ⟨w, hw, -⟩ :=
      (lookup_of_collectToMap hnodup h entry.1).1 entry.2 (List.mem_dlookup hnodup hentry)
    obtain ⟨w', hw', -⟩ := (Effectful.map_ok_iff _ _ _).mp hw
    exact ⟨w', hw'⟩

theorem visibleEffects_compileProgramTemplates
    {programTemplates : JMap ProgramId ProgramTemplate}
    {compilerOutputs : JMap ProgramId (JMap Group CompilerOutput)}
    (h : (compileProgramTemplates env programTemplates groupsCount).result = .ok compilerOutputs) :
    visibleEffects (compileProgramTemplates env programTemplates groupsCount).effects
      = (compileSteps env programTemplates).flatMap Prod.snd := by
  obtain ⟨heffects, hoks⟩ := effects_collectToMap_some programTemplates.nodupKeys h
  have hgroups : ∀ entry ∈ programTemplates.entries,
      (compileProgramTemplateForGroups env entry.1 entry.2 groupsCount).effects
        = [Group.A, Group.B].flatMap fun group =>
          (compileProgramTemplate env entry.1 entry.2 group).effects := by
    intro entry hentry
    obtain ⟨compilerOutputs, hok⟩ := hoks entry hentry
    exact (effects_collectToMap_some nodupKeys_groupsFrom hok).1
  unfold compileProgramTemplates toMap
  rw [heffects, List.flatMap_congr hgroups, visibleEffects_flatMap]
  unfold compileSteps
  simp only [List.flatMap_assoc, visibleEffects_flatMap, List.flatMap_map]

theorem visibleEffects_runPrograms {compilerOutputs : JMap ProgramId (JMap Group CompilerOutput)}
    {processOutputs : JMap ProgramId (JMap Group ProcessOutput)}
    (h : (runPrograms compilerOutputs).result = .ok processOutputs) :
    visibleEffects (runPrograms compilerOutputs).effects
      = (runSteps compilerOutputs).flatMap Prod.snd := by
  rw [runPrograms_eq] at h ⊢
  obtain ⟨heffects, hoks⟩ := effects_collectToMap_some compilerOutputs.nodupKeys h
  have hgroups : ∀ entry ∈ compilerOutputs.entries,
      (toMap entry.2 fun group compilerOutput => runProgram entry.1 compilerOutput group).effects
        = entry.2.entries.flatMap fun entry' =>
          (runProgram entry.1 entry'.2 entry'.1).effects := by
    intro entry hentry
    obtain ⟨groupOutputs, hok⟩ := hoks entry hentry
    exact effects_collectToMap hok
  unfold toMap at heffects hgroups ⊢
  rw [heffects, List.flatMap_congr hgroups, visibleEffects_flatMap]
  unfold runSteps
  simp only [List.flatMap_assoc, visibleEffects_flatMap, List.flatMap_map]

/-! ### The steps of the command line are the tasks of the workspace -/

/-- Tasks of some kind, each once. -/
structure AreTasks (env : Environment) (P : PromiseRef → Prop) (steps : Steps) : Prop where
  nodup : (steps.map Prod.fst).Nodup
  mem_iff : ∀ ref, ref ∈ steps.map Prod.fst ↔ P ref
  effects : ∀ step ∈ steps, IsTaskEffects env step.1 step.2

theorem AreTasks.append {P Q : PromiseRef → Prop} {steps steps' : Steps}
    (h : AreTasks env P steps) (h' : AreTasks env Q steps') (hdisjoint : ∀ ref, P ref → ¬ Q ref) :
    AreTasks env (fun ref => P ref ∨ Q ref) (steps ++ steps') where
  nodup := by
    rw [List.map_append, List.nodup_append]
    refine ⟨h.nodup, h'.nodup, ?_⟩
    rintro ref href ref' href' rfl
    exact hdisjoint ref ((h.mem_iff ref).mp href) ((h'.mem_iff ref).mp href')
  mem_iff ref := by rw [List.map_append, List.mem_append, h.mem_iff, h'.mem_iff]
  effects step hstep := by
    rcases List.mem_append.mp hstep with hold | hnew
    · exact h.effects step hold
    · exact h'.effects step hnew

/-- The promises of the programs and groups of a map, each once. -/
theorem nodup_flatMap_entries {V : Type} (inputMap : JMap ProgramId V)
    (groups : Entry ProgramId V → List Group) (hgroups : ∀ entry, (groups entry).Nodup)
    {promise : ProgramId → Group → PromiseRef}
    (hpromise : ∀ programId group programId' group',
      promise programId group = promise programId' group' →
        programId = programId' ∧ group = group') :
    (inputMap.entries.flatMap fun entry => (groups entry).map (promise entry.1)).Nodup := by
  rw [List.nodup_flatMap]
  constructor
  · intro entry _
    exact (hgroups entry).map fun group group' h => (hpromise _ _ _ _ h).2
  · refine (List.pairwise_map.mp inputMap.nodupKeys).imp fun {entry entry'} hne => ?_
    refine List.disjoint_left.mpr ?_
    intro ref href href'
    obtain ⟨group, -, rfl⟩ := List.mem_map.mp href
    obtain ⟨group', -, heq⟩ := List.mem_map.mp href'
    exact hne (hpromise _ _ _ _ heq).1.symm

theorem areTasks_compileSteps {programTemplates : JMap ProgramId ProgramTemplate}
    (hload : loadProgramTemplates env = .ok programTemplates) :
    AreTasks env (fun ref => IsTask env ref ∧ ∃ programId group,
      ref = .compilerOutput programId group) (compileSteps env programTemplates) := by
  have hrefs : (compileSteps env programTemplates).map Prod.fst = programTemplates.entries.flatMap
      fun entry => [Group.A, Group.B].map (PromiseRef.compilerOutput entry.1) := by
    unfold compileSteps
    rw [List.map_flatMap]
    rfl
  constructor
  case nodup =>
    rw [hrefs]
    refine nodup_flatMap_entries programTemplates (fun _ => [Group.A, Group.B])
      (fun _ => by decide) ?_
    rintro programId group programId' group' ⟨⟩
    exact ⟨rfl, rfl⟩
  case mem_iff =>
    intro ref
    rw [hrefs, List.mem_flatMap]
    constructor
    · rintro ⟨entry, hentry, hgroup⟩
      obtain ⟨group, hgroup, rfl⟩ := List.mem_map.mp hgroup
      have hloaded := (loaded_iff hload entry.1 entry.2).mpr (AList.mem_lookup_iff.mpr hentry)
      exact ⟨⟨⟨entry.2, hloaded⟩, by simpa [IsGroup] using hgroup⟩, entry.1, group, rfl⟩
    · rintro ⟨htask, programId, group, rfl⟩
      obtain ⟨⟨programTemplate, hloaded⟩, hgroup⟩ := htask
      have hentry := AList.mem_lookup_iff.mp ((loaded_iff hload _ _).mp hloaded)
      exact ⟨⟨programId, programTemplate⟩, hentry,
        List.mem_map.mpr ⟨group, by simpa [IsGroup] using hgroup, rfl⟩⟩
  case effects =>
    intro step hstep
    obtain ⟨entry, hentry, hstep⟩ := List.mem_flatMap.mp hstep
    obtain ⟨group, -, rfl⟩ := List.mem_map.mp hstep
    have hloaded := (loaded_iff hload entry.1 entry.2).mpr (AList.mem_lookup_iff.mpr hentry)
    exact ⟨entry.2, hloaded, rfl⟩

theorem areTasks_runSteps {compilerOutputs : JMap ProgramId (JMap Group CompilerOutput)}
    (htable : IsTable env (IsCompilerOutput env) compilerOutputs) :
    AreTasks env (fun ref => IsTask env ref ∧ ∃ programId group,
      ref = .runOutput programId group) (runSteps compilerOutputs) := by
  have hrefs : (runSteps compilerOutputs).map Prod.fst = compilerOutputs.entries.flatMap
      fun entry => entry.2.keys.map (PromiseRef.runOutput entry.1) := by
    unfold runSteps AList.keys List.keys
    simp only [List.map_flatMap, List.map_map]
    rfl
  constructor
  case nodup =>
    rw [hrefs]
    refine nodup_flatMap_entries compilerOutputs (fun entry => entry.2.keys)
      (fun entry => AList.keys_nodup _) ?_
    rintro programId group programId' group' ⟨⟩
    exact ⟨rfl, rfl⟩
  case mem_iff =>
    intro ref
    rw [hrefs, List.mem_flatMap]
    constructor
    · rintro ⟨entry, hentry, hgroup⟩
      obtain ⟨group, hkey, rfl⟩ := List.mem_map.mp hgroup
      have hlookup := AList.mem_lookup_iff.mpr hentry
      rw [← AList.mem_keys, ← AList.lookup_isSome, Option.isSome_iff_exists] at hkey
      exact ⟨⟨(htable.keys entry.1).mp ⟨_, hlookup⟩,
        (htable.groups entry.1 _ hlookup group).mp hkey⟩, entry.1, group, rfl⟩
    · rintro ⟨htask, programId, group, rfl⟩
      obtain ⟨hloaded, hgroup⟩ := htask
      obtain ⟨values, hvalues⟩ := (htable.keys programId).mpr hloaded
      have hkey := (htable.groups programId values hvalues group).mpr hgroup
      rw [← Option.isSome_iff_exists, AList.lookup_isSome, AList.mem_keys] at hkey
      exact ⟨⟨programId, values⟩, AList.mem_lookup_iff.mp hvalues,
        List.mem_map.mpr ⟨group, hkey, rfl⟩⟩
  case effects =>
    intro step hstep
    obtain ⟨entry, hentry, hstep⟩ := List.mem_flatMap.mp hstep
    obtain ⟨entry', hentry', rfl⟩ := List.mem_map.mp hstep
    exact ⟨entry'.2, htable.isValue entry.1 _ (AList.mem_lookup_iff.mpr hentry) entry'.1 _
      (AList.mem_lookup_iff.mpr hentry'), rfl⟩

/-! ### Computations without effects -/

/-- The computation has no effects. -/
def Silent {α : Type} (m : Effectful α) : Prop := m.effects = []

theorem Silent.bind {α β : Type} {m : Effectful α} {f : α → Effectful β} (hm : Silent m)
    (hf : ∀ a, Silent (f a)) : Silent (m >>= f) := by
  unfold Silent at hm hf ⊢
  rcases effects_bind m f with ⟨e, -, heffects, -⟩ | ⟨a, -, heffects, -⟩
  · rw [heffects, hm]
  · rw [heffects, hm, hf a, List.nil_append]

theorem Silent.effects_bind {α β : Type} {m : Effectful α} (hm : Silent m) {a : α}
    (h : m.result = .ok a) (f : α → Effectful β) : (m >>= f).effects = (f a).effects := by
  rw [Effectful.effects_bind_of_ok h, hm, List.nil_append]

theorem Silent.forM {α : Type} {f : α → Effectful Unit} (hf : ∀ a, Silent (f a)) (xs : List α) :
    Silent (forM xs f) := by
  induction xs with
  | nil => rfl
  | cons x xs ih =>
    rw [List.forM_cons]
    exact (hf x).bind fun _ => ih

theorem Silent.collectToMap {K V₁ V₂ : Type} [DecidableEq K]
    {mapper : K → V₁ → Effectful (Option V₂)} (h : ∀ k v, Silent (mapper k v))
    (entries : List (Entry K V₁)) (inputMap : JMap K V₂) :
    Silent (collectToMap mapper entries inputMap) := by
  unfold Silent
  rw [List.eq_nil_iff_forall_not_mem]
  intro effect heffect
  obtain ⟨entry, -, hmem⟩ := mem_effects_collectToMap heffect
  rw [h entry.1 entry.2] at hmem
  cases hmem

section

variable {programTemplates : JMap ProgramId ProgramTemplate}
  {outputs : JMap ProgramId (JMap Group ProgramOutput)}

theorem silent_extractGroupOutputs (group : Group) :
    Silent (extractGroupOutputs outputs group) := by
  refine Silent.collectToMap (fun _ groupProgramOutputMap => ?_) _ _
  exact Effectful.effects_pure _

theorem silent_generateFilesWithProgramsOutputs :
    Silent (generateFilesWithProgramsOutputs env outputs) := by
  have hforM := Silent.forM (f := fun group => do let _ ← extractGroupOutputs outputs group)
    (fun group => (silent_extractGroupOutputs group).bind fun _ => Effectful.effects_pure _)
    ((List.range groupsCount).map fun i => ⟨i⟩)
  have hfiles := hforM.bind fun _ => Effectful.effects_ofExcept env.writeOutputs
  exact hfiles

/-- The part of the command line that is done for a group. -/
theorem isTaskEffects_generateAllExamVariantsOfGroup
    (hload : loadProgramTemplates env = .ok programTemplates) (houtputs : IsOutputs env outputs)
    {group : Group} (hgroup : IsGroup group)
    (h : (generateAllExamVariantsOfGroup env programTemplates outputs group).result = .ok ()) :
    IsTaskEffects env (.documents group) (visibleEffects
      (generateAllExamVariantsOfGroup env programTemplates outputs group).effects) := by
  obtain ⟨groupOutputs, hextract, h⟩ := (Effectful.bind_ok_iff _ _ _).mp h
  obtain ⟨evaluated, hevaluated, h⟩ := (Effectful.bind_ok_iff _ _ _).mp h
  obtain ⟨_, hfiles, h⟩ := (Effectful.bind_ok_iff _ _ _).mp h
  refine ⟨evaluated, isEvaluated_of_extractGroupOutputs hload houtputs hgroup hextract
    (lookup_evaluated hevaluated), ?_⟩
  refine congrArg visibleEffects ?_
  refine ((silent_extractGroupOutputs group).effects_bind hextract _).trans ?_
  refine (Silent.effects_bind ?_ hevaluated _).trans ?_
  · refine Silent.collectToMap (fun programId programOutput => ?_) _ _
    cases programTemplates.lookup programId
    · exact Effectful.effects_ofExcept _
    · exact Effectful.effects_pure _
  · exact silent_generateFilesWithProgramsOutputs.effects_bind hfiles _

end

theorem areTasks_load : AreTasks env (· = .programTemplates) [(.programTemplates, [])] where
  nodup := by simp
  mem_iff ref := by simp
  effects step hstep := by
    rw [List.mem_singleton.mp hstep]
    rfl

theorem areTasks_documents {group : Group} {effects : List Effect}
    (h : IsTaskEffects env (.documents group) effects) :
    AreTasks env (· = .documents group) [(.documents group, effects)] where
  nodup := by simp
  mem_iff ref := by simp
  effects step hstep := by
    rw [List.mem_singleton.mp hstep]
    exact h

theorem AreTasks.congr {P Q : PromiseRef → Prop} {steps : Steps} (h : AreTasks env P steps)
    (hPQ : ∀ ref, P ref ↔ Q ref) : AreTasks env Q steps :=
  ⟨h.nodup, fun ref => (h.mem_iff ref).trans (hPQ ref), h.effects⟩

/-- **The steps of the command line**, where it ends well: the tasks of the workspace, each once,
one after another. -/
theorem exists_steps (h : (generateAllExamVariants env).result = .ok ()) :
    ∃ steps, AreTasks env (IsTask env) steps
      ∧ visibleEffects (generateAllExamVariants env).effects = steps.flatMap Prod.snd := by
  obtain ⟨programTemplates, hload, h⟩ := (Effectful.bind_ok_iff _ _ _).mp h
  obtain ⟨compilerOutputs, hcompile, h⟩ := (Effectful.bind_ok_iff _ _ _).mp h
  obtain ⟨processOutputs, hrun, h⟩ := (Effectful.bind_ok_iff _ _ _).mp h
  have htable := isTable_compileProgramTemplates hload hcompile
  have houtputs := isOutputs_extractStandardOutputs (isTable_runPrograms htable hrun)
  -- the loop over the two groups
  obtain ⟨_, hA, h⟩ := (Effectful.bind_ok_iff _ _ _).mp h
  obtain ⟨_, hB, -⟩ := (Effectful.bind_ok_iff _ _ _).mp h
  have hstepA := areTasks_documents
    (isTaskEffects_generateAllExamVariantsOfGroup hload houtputs (.inl rfl) hA)
  have hstepB := areTasks_documents
    (isTaskEffects_generateAllExamVariantsOfGroup hload houtputs (.inr rfl) hB)
  have hgroups := hstepA.append hstepB (by rintro ref rfl ⟨⟩)
  have hruns := (areTasks_runSteps htable).append hgroups (by
    rintro ref ⟨-, programId, group, rfl⟩ (h | h) <;> cases h)
  have hcompiles := (areTasks_compileSteps hload).append hruns (by
    rintro ref ⟨-, programId, group, rfl⟩ (⟨-, _, _, h⟩ | h | h) <;> cases h)
  have hsteps := areTasks_load.append hcompiles (by
    rintro ref rfl (⟨-, _, _, h⟩ | ⟨-, _, _, h⟩ | h | h) <;> cases h)
  refine ⟨_, hsteps.congr fun ref => ?_, ?_⟩
  · constructor
    · rintro (rfl | ⟨htask, -⟩ | ⟨htask, -⟩ | rfl | rfl)
      · trivial
      · exact htask
      · exact htask
      · exact .inl rfl
      · exact .inr rfl
    · intro htask
      cases ref with
      | programTemplates => exact .inl rfl
      | compilerOutput programId group => exact .inr (.inl ⟨htask, programId, group, rfl⟩)
      | runOutput programId group => exact .inr (.inr (.inl ⟨htask, programId, group, rfl⟩))
      | documents group =>
        rcases htask with rfl | rfl
        · exact .inr (.inr (.inr (.inl rfl)))
        · exact .inr (.inr (.inr (.inr rfl)))
      | _ => cases htask
  · have hloop : visibleEffects (generateAllExamVariantsFrom env programTemplates
        (extractStandardOutputs processOutputs)).effects
        = visibleEffects (generateAllExamVariantsOfGroup env programTemplates
            (extractStandardOutputs processOutputs) Group.A).effects
          ++ visibleEffects (generateAllExamVariantsOfGroup env programTemplates
            (extractStandardOutputs processOutputs) Group.B).effects := by
      rw [← visibleEffects_append]
      refine congrArg visibleEffects ((Effectful.effects_bind_of_ok hA _).trans ?_)
      refine congrArg (_ ++ ·) ((Effectful.effects_bind_of_ok hB _).trans ?_)
      exact List.append_nil _
    unfold generateAllExamVariants
    rw [Effectful.effects_bind_of_ok hload, Effectful.effects_bind_of_ok hcompile,
      Effectful.effects_bind_of_ok hrun, visibleEffects_append, visibleEffects_append,
      visibleEffects_append, visibleEffects_compileProgramTemplates hcompile,
      visibleEffects_runPrograms hrun, hloop]
    simp [visibleEffects]

/-! ### Both ways of generating exams -/

/-- Where no task fails, a task that has come to its end has kept no exception. -/
theorem exists_complete (hreachable : (projectTask env).Reachable newProjectTask s)
    (hquiescent : (projectTask env).Quiescent s) (hnot : ¬ TaskFails env) :
    ∃ past, Complete env past s := by
  obtain ⟨past, hpast⟩ := hreachable.history
  refine ⟨past, hpast, hquiescent, ?_⟩
  by_contra hsome
  exact hnot ((inv_of_history hpast).failed (Option.isSome_iff_ne_none.mpr hsome)).1

/-- Where the command line ends well, a task that has come to its end has done everything. -/
theorem complete_of_ok (hreachable : (projectTask env).Reachable newProjectTask s)
    (hquiescent : (projectTask env).Quiescent s)
    (hok : (generateAllExamVariants env).result = .ok ()) :
    (∃ past, Complete env past s) ∧ getState s = .succeeded
    ∧ ∀ group, IsGroup group → DocumentsGenerated s group := by
  obtain ⟨past, h⟩ := exists_complete hreachable hquiescent (not_taskFails hok)
  have hexits := (generateAllExamVariants_ok hok).2.1.exitsWithZero
  refine ⟨⟨past, h⟩, ?_, fun group hgroup => ?_⟩
  · rw [getState_ne_running hreachable hquiescent, if_pos h.exception]
  · exact h.inv.documentsGenerated hquiescent h.exception hexits hgroup

theorem perm_visibleEffects (hreachable : (projectTask env).Reachable newProjectTask s)
    (hquiescent : (projectTask env).Quiescent s)
    (hok : (generateAllExamVariants env).result = .ok ()) :
    (visibleEffects s.world.effects).Perm
      (visibleEffects (generateAllExamVariants env).effects) := by
  obtain ⟨⟨past, h⟩, -, hdocuments⟩ := complete_of_ok hreachable hquiescent hok
  obtain ⟨steps, hsteps, heffects⟩ := exists_steps hok
  rw [h.account.effects, heffects, visibleEffects_flatMap]
  have hperm : ((endedTasks past).map Supplier.promise).Perm (steps.map Prod.fst) := by
    rw [List.perm_ext_iff_of_nodup (nodup_promises h.history) hsteps.nodup]
    intro ref
    rw [h.mem_promises hdocuments, hsteps.mem_iff]
  refine flatMap_perm_of_key hperm fun supplier hended step hstep heq => ?_
  obtain ⟨value, hvalue⟩ := h.result hended
  have htask := isTaskEffects_of_due (h.account.due supplier hended) hvalue
  have hstepEffects := hsteps.effects step hstep
  rw [← heq] at hstepEffects
  exact htask.unique hstepEffects

/-- Where the command line ends well, a task does nothing at any time that the command line does
not do. -/
theorem Account.visibleEffects_subset (h : Account env past s)
    (hok : (generateAllExamVariants env).result = .ok ()) :
    visibleEffects s.world.effects ⊆ visibleEffects (generateAllExamVariants env).effects := by
  obtain ⟨steps, hsteps, heffects⟩ := exists_steps hok
  intro effect hmem
  rw [h.effects, visibleEffects_flatMap, List.mem_flatMap] at hmem
  obtain ⟨supplier, hended, hmem⟩ := hmem
  have hdue := h.due supplier hended
  have hstep := (hsteps.mem_iff _).mpr (isTask_of_due hdue)
  obtain ⟨step, hstep, hpromise⟩ := List.mem_map.mp hstep
  have hstepEffects := hsteps.effects step hstep
  cases hresult : (runSupplier env supplier).result with
  | error e => exact absurd ⟨supplier, e, hdue, hresult⟩ (not_taskFails hok)
  | ok value =>
    have htask := isTaskEffects_of_due hdue hresult
    rw [hpromise] at hstepEffects
    rw [heffects, List.mem_flatMap]
    exact ⟨step, hstep, htask.unique hstepEffects ▸ hmem⟩

/-- **The graphical interface does what the command line does, each thing once.**  Where the
command line ends well, every task that has come to its end has succeeded, has generated the
documents of both groups, and has written the same diagnostics and saved the same documents as the
command line, in another order. -/
theorem same_effects (hreachable : (projectTask env).Reachable newProjectTask s)
    (hquiescent : (projectTask env).Quiescent s)
    (hok : (generateAllExamVariants env).result = .ok ()) :
    getState s = .succeeded ∧ DocumentsGenerated s Group.A ∧ DocumentsGenerated s Group.B
    ∧ (visibleEffects s.world.effects).Perm
        (visibleEffects (generateAllExamVariants env).effects) := by
  obtain ⟨-, hstate, hdocuments⟩ := complete_of_ok hreachable hquiescent hok
  exact ⟨hstate, hdocuments _ (.inl rfl), hdocuments _ (.inr rfl),
    perm_visibleEffects hreachable hquiescent hok⟩

theorem generateAllExamVariants_oneProgram :
    (generateAllExamVariants (oneProgramEnvironment 0)).result = .ok () := by
  decide +kernel

/-- A program that exits with status 0. -/
theorem same_effects_example :
    (visibleEffects (oneProgramRun 0).world.effects).Perm
      (visibleEffects (generateAllExamVariants (oneProgramEnvironment 0)).effects) :=
  (same_effects (reachable_oneProgramRun 0) quiescent_oneProgramRun
    generateAllExamVariants_oneProgram).2.2.2

/-! ### Where the command line ends well -/

/-- `toMap` ends well if the mapper gives no `null`. -/
theorem toMap_some_ok {K V₁ V₂ : Type} [DecidableEq K] {f : K → V₁ → Effectful V₂}
    (inputMap : JMap K V₁)
    (h : ∀ k v, inputMap.lookup k = some v → ∃ w, (f k v).result = .ok w) :
    ∃ outputMap, (toMap inputMap fun k v => some <$> f k v).result = .ok outputMap := by
  apply collectToMap_ok
  intro entry hentry
  obtain ⟨w, hw⟩ := h entry.1 entry.2 (AList.mem_lookup_iff.mpr hentry)
  exact ⟨w, (Effectful.map_ok_iff _ _ _).mpr ⟨w, hw, rfl⟩⟩

theorem compileProgramTemplates_ok {programTemplates : JMap ProgramId ProgramTemplate}
    (hload : loadProgramTemplates env = .ok programTemplates) (hprograms : ProgramsRun env) :
    ∃ compilerOutputs, (compileProgramTemplates env programTemplates groupsCount).result
      = .ok compilerOutputs := by
  refine toMap_some_ok programTemplates fun programId programTemplate hlookup => ?_
  have hloaded := (loaded_iff hload _ _).mpr hlookup
  apply collectToMap_ok
  intro entry hentry
  have hgroup : IsGroup entry.1 :=
    (dlookup_groupsFrom entry.1).mp ⟨_, List.mem_dlookup nodupKeys_groupsFrom hentry⟩
  obtain ⟨_, compilerOutput, ⟨programTemplate', hloaded', hcompile⟩, -⟩ :=
    hprograms programId programTemplate entry.1 hloaded hgroup
  rw [hloaded'.unique hloaded] at hcompile
  exact ⟨compilerOutput, (Effectful.map_ok_iff _ _ _).mpr ⟨_, hcompile, rfl⟩⟩

theorem runPrograms_ok {compilerOutputs : JMap ProgramId (JMap Group CompilerOutput)}
    (htable : IsTable env (IsCompilerOutput env) compilerOutputs) (hprograms : ProgramsRun env) :
    ∃ processOutputs, (runPrograms compilerOutputs).result = .ok processOutputs := by
  rw [runPrograms_eq]
  refine toMap_some_ok compilerOutputs fun programId groupOutputs hlookup => ?_
  apply collectToMap_ok
  intro entry hentry
  have hentry := AList.mem_lookup_iff.mpr hentry
  obtain ⟨programTemplate, hloaded⟩ := (htable.keys programId).mp ⟨_, hlookup⟩
  have hgroup := (htable.groups programId _ hlookup entry.1).mp ⟨_, hentry⟩
  have hcompiler := htable.isValue programId _ hlookup entry.1 _ hentry
  obtain ⟨processOutput, compilerOutput, hcompiler', hrun⟩ :=
    hprograms programId programTemplate entry.1 hloaded hgroup
  rw [hcompiler'.unique hcompiler] at hrun
  exact ⟨processOutput, hrun⟩

theorem bind_ok_of_ok {α β : Type} {m : Effectful α} {f : α → Effectful β} {b : β}
    (hm : ∃ a, m.result = .ok a) (hf : ∀ a, m.result = .ok a → (f a).result = .ok b) :
    (m >>= f).result = .ok b := by
  obtain ⟨a, ha⟩ := hm
  exact (Effectful.bind_ok_iff _ _ _).mpr ⟨a, ha, hf a ha⟩

theorem result_bind_of_ok {α β : Type} {m : Effectful α} {a : α} (h : m.result = .ok a)
    (f : α → Effectful β) : (m >>= f).result = (f a).result := by
  rcases effects_bind m f with ⟨e, he, -, -⟩ | ⟨a', ha', -, hend⟩
  · rw [h] at he
    cases he
  · obtain rfl : a' = a := Except.ok.inj (ha'.symm.trans h)
    exact hend

theorem result_of_wrapException {α : Type} {m : Effectful α} {a : α}
    (h : m.wrapException.result = .ok a) : m.result = .ok a := by
  change m.result.mapError JavaException.runtimeException = .ok a at h
  cases hm : m.result with
  | ok a' =>
    rw [hm] at h
    exact h
  | error e =>
    rw [hm] at h
    cases h

section

variable {programTemplates : JMap ProgramId ProgramTemplate}
  {outputs : JMap ProgramId (JMap Group ProgramOutput)}

theorem extractGroupOutputs_ok (houtputs : IsOutputs env outputs) {group : Group}
    (hgroup : IsGroup group) :
    ∃ groupOutputs, (extractGroupOutputs outputs group).result = .ok groupOutputs := by
  apply collectToMap_ok
  intro entry hentry
  obtain ⟨programOutput, hlookup⟩ :=
    (houtputs.groups entry.1 entry.2 (AList.mem_lookup_iff.mpr hentry) group).mpr hgroup
  exact ⟨programOutput, congrArg Except.ok hlookup⟩

/-- The output files are written unless the world refuses them. -/
theorem result_generateFilesWithProgramsOutputs (houtputs : ∀ group, IsGroup group →
    ∃ groupOutputs, (extractGroupOutputs outputs group).result = .ok groupOutputs) :
    (generateFilesWithProgramsOutputs env outputs).result
      = env.writeOutputs.mapError .runtimeException := by
  have hgroup : ∀ {group}, IsGroup group →
      (do let _ ← extractGroupOutputs outputs group : Effectful Unit).result = .ok () :=
    fun hgroup => bind_ok_of_ok (houtputs _ hgroup) fun _ _ => rfl
  have hfiles : (forM ((List.range groupsCount).map fun i => (⟨i⟩ : Group)) fun group => do
      let _ ← extractGroupOutputs outputs group).result = .ok () :=
    bind_ok_of_ok ⟨(), hgroup (.inl rfl)⟩ fun _ _ =>
      bind_ok_of_ok ⟨(), hgroup (.inr rfl)⟩ fun _ _ => rfl
  refine congrArg (Except.mapError JavaException.runtimeException) ?_
  exact result_bind_of_ok hfiles fun _ => Effectful.ofExcept env.writeOutputs

theorem generateFilesWithProgramsOutputs_ok (houtputs : IsOutputs env outputs)
    (hwrite : env.writeOutputs = .ok ()) :
    (generateFilesWithProgramsOutputs env outputs).result = .ok () := by
  rw [result_generateFilesWithProgramsOutputs fun _ => extractGroupOutputs_ok houtputs, hwrite]
  rfl

theorem writeOutputs_of_generateFilesWithProgramsOutputs
    (h : (generateFilesWithProgramsOutputs env outputs).result = .ok ()) :
    env.writeOutputs = .ok () := by
  obtain ⟨_, -, hwrite⟩ := (Effectful.bind_ok_iff _ _ _).mp (result_of_wrapException h)
  exact hwrite

/-- The part of the command line that is done for a group ends well if its documents can be
generated. -/
theorem generateAllExamVariantsOfGroup_ok
    (hload : loadProgramTemplates env = .ok programTemplates) (houtputs : IsOutputs env outputs)
    (hwrite : env.writeOutputs = .ok ()) {group : Group} (hgroup : IsGroup group)
    {m : JMap ProgramId EvaluatedProgramTemplate} (hm : IsEvaluated env group m)
    (hok : (generateExamVariantsForGroup env m group).result = .ok ()) :
    (generateAllExamVariantsOfGroup env programTemplates outputs group).result = .ok () := by
  refine bind_ok_of_ok (extractGroupOutputs_ok houtputs hgroup) fun groupOutputs hextract => ?_
  refine bind_ok_of_ok (collectToMap_ok _ _ ?_) fun evaluated hevaluated => ?_
  · intro entry hentry
    obtain ⟨values, hvalues, -⟩ :=
      (lookup_extractGroupOutputs hextract entry.1 entry.2).mp (AList.mem_lookup_iff.mpr hentry)
    obtain ⟨programTemplate, hloaded⟩ := (houtputs.keys entry.1).mp ⟨values, hvalues⟩
    rw [(loaded_iff hload _ _).mp hloaded]
    exact ⟨_, rfl⟩
  · refine bind_ok_of_ok ⟨(), generateFilesWithProgramsOutputs_ok houtputs hwrite⟩ fun _ _ => ?_
    have hevaluated := isEvaluated_of_extractGroupOutputs hload houtputs hgroup hextract
      (lookup_evaluated hevaluated)
    exact generateExamVariantsForGroup_ok_congr (hm.lookup_eq hevaluated) hok

end

/-- The command line ends well if all programs run, and the output files and the documents of both
groups can be made. -/
theorem generateAllExamVariants_ok_of {programTemplates : JMap ProgramId ProgramTemplate}
    (hload : loadProgramTemplates env = .ok programTemplates) (hprograms : ProgramsRun env)
    (hwrite : env.writeOutputs = .ok ())
    (hdocuments : ∀ group, IsGroup group → ∃ m, IsEvaluated env group m
      ∧ (generateExamVariantsForGroup env m group).result = .ok ()) :
    (generateAllExamVariants env).result = .ok () := by
  refine bind_ok_of_ok ⟨programTemplates, hload⟩ fun programTemplates hload => ?_
  refine bind_ok_of_ok (compileProgramTemplates_ok hload hprograms) fun _ hcompile => ?_
  have htable := isTable_compileProgramTemplates hload hcompile
  refine bind_ok_of_ok (runPrograms_ok htable hprograms) fun processOutputs hrun => ?_
  have houtputs := isOutputs_extractStandardOutputs (isTable_runPrograms htable hrun)
  have hgroup : ∀ group, IsGroup group → (generateAllExamVariantsOfGroup env programTemplates
      (extractStandardOutputs processOutputs) group).result = .ok () := by
    intro group hgroup
    obtain ⟨m, hm, hok⟩ := hdocuments group hgroup
    exact generateAllExamVariantsOfGroup_ok hload houtputs hwrite hgroup hm hok
  exact bind_ok_of_ok ⟨(), hgroup Group.A (.inl rfl)⟩ fun _ _ =>
    bind_ok_of_ok ⟨(), hgroup Group.B (.inr rfl)⟩ fun _ _ => rfl

theorem writeOutputs_of_group_ok {programTemplates : JMap ProgramId ProgramTemplate}
    {outputs : JMap ProgramId (JMap Group ProgramOutput)} {group : Group}
    (h : (generateAllExamVariantsOfGroup env programTemplates outputs group).result = .ok ()) :
    env.writeOutputs = .ok () := by
  obtain ⟨groupOutputs, -, h⟩ := (Effectful.bind_ok_iff _ _ _).mp h
  obtain ⟨evaluated, -, h⟩ := (Effectful.bind_ok_iff _ _ _).mp h
  obtain ⟨_, hfiles, -⟩ := (Effectful.bind_ok_iff _ _ _).mp h
  exact writeOutputs_of_generateFilesWithProgramsOutputs hfiles

theorem writeOutputs_of_ok (h : (generateAllExamVariants env).result = .ok ()) :
    env.writeOutputs = .ok () := by
  obtain ⟨programTemplates, -, h⟩ := (Effectful.bind_ok_iff _ _ _).mp h
  obtain ⟨compilerOutputs, -, h⟩ := (Effectful.bind_ok_iff _ _ _).mp h
  obtain ⟨processOutputs, -, h⟩ := (Effectful.bind_ok_iff _ _ _).mp h
  obtain ⟨_, hA, -⟩ := (Effectful.bind_ok_iff _ _ _).mp h
  exact writeOutputs_of_group_ok hA

/-- The programs of a task that has generated the documents of both groups. -/
theorem Complete.programsRun (h : Complete env past s)
    (hdocuments : ∀ group, IsGroup group → DocumentsGenerated s group) : ProgramsRun env := by
  intro programId programTemplate group hloaded hgroup
  have hexits := (h.generated_iff hgroup).mp (hdocuments group hgroup)
  obtain ⟨processOutput, -, hprocess⟩ := h.processOutput hloaded hgroup
  cases processOutput with
  | none => exact absurd hprocess (groupExitsWithZero_iff.mp hexits programId)
  | some processOutput => exact ⟨processOutput, hprocess⟩

/-- The documents of a group have been generated from the right map. -/
theorem Complete.generateExamVariantsForGroup_ok (h : Complete env past s) {group : Group}
    (hdocuments : DocumentsGenerated s group) :
    ∃ m, IsEvaluated env group m ∧ (generateExamVariantsForGroup env m group).result = .ok () := by
  have hsettled : (s.outcome (.documents group)).isSome := by
    rw [h.inv.resolved _ _ hdocuments]
    rfl
  obtain ⟨supplier, hended, hpromise⟩ :=
    h.account.ended (.generateExamVariants group ∅ ∅) hsettled
  cases supplier with
  | generateExamVariants group' programPipelineMap processOutputs =>
    obtain rfl : group' = group := by injection hpromise
    obtain ⟨-, hpipelines, hprocess⟩ := h.account.due _ hended
    obtain ⟨⟨⟩, hok⟩ := h.result hended
    obtain ⟨evaluated, hevaluated, hok⟩ := (Effectful.bind_ok_iff _ _ _).mp hok
    exact ⟨evaluated, isEvaluated_evaluatedProgramTemplateMap hpipelines hprocess hevaluated, hok⟩
  | _ => cases hpromise

/-- **The command line ends well exactly if the graphical interface generates all documents**, as
long as the output files, which only the command line writes, can be written: this does not depend
on the order in which the graphical interface does its tasks. -/
theorem commandLine_ok_iff (hreachable : (projectTask env).Reachable newProjectTask s)
    (hquiescent : (projectTask env).Quiescent s) :
    (generateAllExamVariants env).result = .ok () ↔ env.writeOutputs = .ok ()
      ∧ getState s = .succeeded ∧ DocumentsGenerated s Group.A ∧ DocumentsGenerated s Group.B := by
  constructor
  · intro hok
    obtain ⟨-, hstate, hdocuments⟩ := complete_of_ok hreachable hquiescent hok
    exact ⟨writeOutputs_of_ok hok, hstate, hdocuments _ (.inl rfl), hdocuments _ (.inr rfl)⟩
  · rintro ⟨hwrite, hstate, hA, hB⟩
    obtain ⟨past, hpast⟩ := hreachable.history
    have hexception : s.world.promiseContext.exception = none := by
      by_contra hfailed
      rw [getState_eq, if_neg hfailed] at hstate
      cases hstate
    have h : Complete env past s := ⟨hpast, hquiescent, hexception⟩
    have hdocuments : ∀ group, IsGroup group → DocumentsGenerated s group := by
      rintro group (rfl | rfl)
      · exact hA
      · exact hB
    obtain ⟨programTemplates, hload⟩ := h.exists_load
    exact generateAllExamVariants_ok_of hload (h.programsRun hdocuments) hwrite
      fun group hgroup => h.generateExamVariantsForGroup_ok (hdocuments group hgroup)

/-- A program that exits with status 0. -/
theorem commandLine_ok_iff_example :
    (generateAllExamVariants (oneProgramEnvironment 0)).result = .ok ()
      ↔ (oneProgramEnvironment 0).writeOutputs = .ok () ∧ getState (oneProgramRun 0) = .succeeded
        ∧ DocumentsGenerated (oneProgramRun 0) Group.A
        ∧ DocumentsGenerated (oneProgramRun 0) Group.B :=
  commandLine_ok_iff (reachable_oneProgramRun 0) quiescent_oneProgramRun

end ExamGeneratorNg
