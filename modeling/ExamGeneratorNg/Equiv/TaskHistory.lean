import ExamGeneratorNg.Equiv.TaskProgress
import ExamGeneratorNg.Promise.Histories

/-!
# What happens in a project task

Everything that can happen in a `ProjectTask` has a name (`eventName`) and happens once.  What a
callback adds to a task are its `children`.
-/

namespace ExamGeneratorNg

open Promise Stateful

/-! ### Names -/

/-- A callback without the data it has captured, or the promise of a task. -/
inductive EventName
  | workDone (ref : PromiseRef)
  | exception (ref : PromiseRef)
  | programPipelines
  | examPipeline (group : Group)
  | runProgram (programId : ProgramId) (group : Group)
  | runOutput (programId : ProgramId) (group : Group)
  | entry (group : Group) (key : ProgramId)
  | collect (group : Group) (key : ProgramId)
  | processOutputs (group : Group)
  | documentsGenerated (group : Group)
  | documents (group : Group)
  | task (ref : PromiseRef)
deriving DecidableEq, Repr

/-- The name of a callback that is called or of a task that ends. -/
def eventName : Event Callback Supplier → EventName
  | .called (.workDone ref) => .workDone ref
  | .called (.exception ref) => .exception ref
  | .called .programPipelines => .programPipelines
  | .called (.examPipeline group) => .examPipeline group
  | .called (.runProgram programId group) => .runProgram programId group
  | .called (.runOutput programId group) => .runOutput programId group
  | .called (.entry group key _) => .entry group key
  | .called (.collect group _ key) => .collect group key
  | .called (.processOutputs group) => .processOutputs group
  | .called (.documentsGenerated group _) => .documentsGenerated group
  | .called (.documents group) => .documents group
  | .ended supplier => .task supplier.promise

/-- What `supplyAsync` adds. -/
def suppliedNames (ref : PromiseRef) : List EventName := [.task ref, .workDone ref, .exception ref]

/-- What `groupPipeline` adds. -/
def groupPipelineNames (programId : ProgramId) (group : Group) : List EventName :=
  suppliedNames (.compilerOutput programId group) ++ [.runProgram programId group]

/-- What `programPipeline` adds. -/
def programPipelineNames (programId : ProgramId) : List EventName :=
  groupPipelineNames programId Group.A ++ groupPipelineNames programId Group.B

/-- What `examPipeline` adds. -/
def examPipelineNames (programIds : List ProgramId) (group : Group) : List EventName :=
  programIds.map (.entry group) ++ programIds.map (.collect group)
    ++ [.processOutputs group, .documentsGenerated group]

section

variable (env : Environment)

/-- The programs of the workspace. -/
def loadedIds : List ProgramId :=
  match loadProgramTemplates env with
  | .ok programTemplates => programTemplates.keys
  | .error _ => []

/-- What calling a callback adds. -/
def children : EventName → List EventName
  | .programPipelines => (loadedIds env).flatMap programPipelineNames
  | .examPipeline group => examPipelineNames (loadedIds env) group
  | .runProgram programId group =>
    suppliedNames (.runOutput programId group) ++ [.runOutput programId group]
  | .documentsGenerated group => suppliedNames (.documents group) ++ [.documents group]
  | _ => []

end

/-- The callback that supplies the task of a promise. -/
def supplierParent : PromiseRef → Option EventName
  | .compilerOutput _ _ => some .programPipelines
  | .runOutput programId group => some (.runProgram programId group)
  | .documents group => some (.documentsGenerated group)
  | _ => none

/-- The callback that adds what has the name. -/
def parent : EventName → Option EventName
  | .workDone ref => supplierParent ref
  | .exception ref => supplierParent ref
  | .programPipelines => none
  | .examPipeline _ => none
  | .runProgram _ _ => some .programPipelines
  | .runOutput programId group => some (.runProgram programId group)
  | .entry group _ => some (.examPipeline group)
  | .collect group _ => some (.examPipeline group)
  | .processOutputs group => some (.examPipeline group)
  | .documentsGenerated group => some (.examPipeline group)
  | .documents group => some (.documentsGenerated group)
  | .task ref => supplierParent ref

variable {env : Environment} {s s' : TaskState}

/-! ### The programs of the workspace -/

theorem loadedIds_of_load {programTemplates : JMap ProgramId ProgramTemplate}
    (hload : loadProgramTemplates env = .ok programTemplates) :
    loadedIds env = programTemplates.keys := by
  unfold loadedIds
  rw [hload]

theorem isKeys_loadedIds : IsKeys env (loadedIds env) := by
  unfold loadedIds
  cases hload : loadProgramTemplates env with
  | error e =>
    refine ⟨List.nodup_nil, fun programId => ?_⟩
    simp [Loaded, hload]
  | ok programTemplates =>
    refine ⟨AList.keys_nodup _, fun programId => ?_⟩
    rw [← AList.mem_keys, ← AList.lookup_isSome, Option.isSome_iff_exists]
    simp only [loaded_iff hload]

/-- The programs of the workspace are known up to their order. -/
theorem IsKeys.perm {keys keys' : List ProgramId} (h : IsKeys env keys) (h' : IsKeys env keys') :
    keys.Perm keys' := by
  rw [List.perm_ext_iff_of_nodup h.1 h'.1]
  intro programId
  rw [h.2, h'.2]

theorem isKeys_of_isPipelines {programPipelines : JMap ProgramId ProgramPipeline}
    (h : IsPipelines env programPipelines) : IsKeys env programPipelines.keys := by
  refine ⟨AList.keys_nodup _, fun programId => ?_⟩
  rw [← AList.mem_keys, ← AList.lookup_isSome, Option.isSome_iff_exists]
  constructor
  · rintro ⟨programPipeline, hpipeline⟩
    obtain ⟨programTemplate, hloaded, -⟩ := (h _ _).mp hpipeline
    exact ⟨programTemplate, hloaded⟩
  · rintro ⟨programTemplate, hloaded⟩
    exact ⟨_, (h _ _).mpr ⟨programTemplate, hloaded, rfl⟩⟩

/-! ### What the code of the pipelines adds -/

/-- The code adds at most these names, and has no effects. -/
abbrev Adding {α : Type} (x : UiCode α) (names : List EventName) : Prop :=
  Spawns eventName TaskWorld.effects x (names : Multiset EventName)

theorem Adding.bind {α β : Type} {x : UiCode α} {f : α → UiCode β} {names names' : List EventName}
    (hx : Adding x names) (hf : ∀ a, (∃ s s', x.run.run s = (.ok a, s')) → Adding (f a) names') :
    Adding (x >>= f) (names ++ names') := by
  unfold Adding
  rw [← Multiset.coe_add]
  exact Spawns.bind hx hf

/-- A list of lists of names, joined. -/
theorem sum_map_coe {ι : Type} (xs : List ι) (f : ι → List EventName) :
    (xs.map fun x => (f x : Multiset EventName)).sum = (xs.flatMap f : List EventName) := by
  induction xs with
  | nil => rfl
  | cons x xs ih => rw [List.map_cons, List.sum_cons, ih, List.flatMap_cons, ← Multiset.coe_add]

theorem adding_supplyAsync (supplier : Supplier) :
    Adding (supplyAsync supplier) (suppliedNames supplier.promise) := by
  refine Spawns.nothing_bind spawns_get fun s _ => ?_
  refine Spawns.nothing_bind (spawns_liftExcept _) fun _ _ => ?_
  refine spawns_modify fun s => ?_
  have hcontext : Spawned eventName TaskWorld.effects 0 s
      (ContextState.mapContext s fun context =>
        { context with workTotal := context.workTotal + 1 }) :=
    ⟨⟨0, le_rfl, (add_zero _).symm⟩, rfl⟩
  have hsupply := hcontext.trans ((spawned_start supplier).trans
    ((spawned_register (.workDone supplier.promise)).trans
      (spawned_register (.exception supplier.promise))))
  exact hsupply.mono (le_of_eq rfl)

theorem adding_register (callback : Callback) :
    Adding (register callback) [eventName (.called callback)] :=
  spawns_modify fun _ => spawned_register callback

theorem adding_groupPipeline (programId : ProgramId) (programTemplate : ProgramTemplate)
    (group : Group) :
    Adding (groupPipeline programId programTemplate group)
      (groupPipelineNames programId group) := by
  refine Adding.bind (adding_supplyAsync _) fun _ _ => ?_
  exact Spawns.bind_nothing (adding_register _) fun _ => spawns_pure _

theorem adding_programPipeline (programId : ProgramId) (programTemplate : ProgramTemplate) :
    Adding (programPipeline programId programTemplate) (programPipelineNames programId) := by
  refine Adding.bind (adding_groupPipeline _ _ _) fun _ _ => ?_
  rw [← List.append_nil (groupPipelineNames programId Group.B)]
  exact Adding.bind (adding_groupPipeline _ _ _) fun _ _ => spawns_pure _

theorem adding_mapMapByEntryM {V₁ V₂ : Type} {inputMap : JMap ProgramId V₁}
    {valueMapper : Entry ProgramId V₁ → UiCode V₂} {names : ProgramId → List EventName}
    (h : ∀ entry ∈ inputMap.entries, Adding (valueMapper entry) (names entry.1)) :
    Adding (mapMapByEntryM inputMap valueMapper) (inputMap.keys.flatMap names) := by
  unfold Adding AList.keys List.keys
  rw [List.flatMap_map, ← sum_map_coe inputMap.entries fun entry => names entry.1]
  refine spawns_foldlM inputMap.entries (fun outputMap entry hentry => ?_) ∅
  exact (h entry hentry).bind_nothing fun value => spawns_pure (outputMap.insert entry.1 value)

theorem adding_factoryAll (group : Group) (keys : List ProgramId) :
    Adding (factoryAll group keys) (keys.map (.collect group)) := by
  unfold factoryAll
  split
  · exact spawns_modify fun _ => spawned_settle _ _
  · refine spawns_modify fun s => ?_
    have hregister : Spawned eventName TaskWorld.effects _ s
        (s.registerAll (keys.map fun key => .collect group keys key)) := spawned_registerAll _
    rwa [List.map_map] at hregister

theorem adding_all (group : Group) (inputMap : JMap ProgramId (ProgramId × Group)) :
    Adding (all group inputMap) (inputMap.keys.map (.entry group)
      ++ (inputMap.keys.map (.collect group) ++ [.processOutputs group])) := by
  refine Adding.bind ?_ fun _ _ => ?_
  · unfold Adding AList.keys List.keys
    rw [List.map_map, List.map_eq_flatMap, ← sum_map_coe inputMap.entries]
    exact spawns_forM inputMap.entries fun entry _ =>
      adding_register (.entry group entry.1 entry.2)
  · exact Adding.bind (adding_factoryAll _ _) fun _ _ => adding_register _

theorem Adding.perm {α : Type} {x : UiCode α} {names names' : List EventName}
    (hx : Adding x names) (h : names.Perm names') : Adding x names' := by
  unfold Adding
  rwa [← Multiset.coe_eq_coe.mpr h]

/-- The map of promises that `examPipeline` makes has the keys of the pipelines. -/
theorem perm_keys_processOutputPromises {group : Group}
    {programPipelines : JMap ProgramId ProgramPipeline}
    {promises : JMap ProgramId (ProgramId × Group)}
    (h : (mapMapByEntryM programPipelines fun entry => processOutputPromise group entry.2).run.run s
      = (.ok promises, s')) : promises.keys.Perm programPipelines.keys := by
  have hpromises : Triple (fun _ : TaskState => True)
      (mapMapByEntryM programPipelines fun entry => processOutputPromise group entry.2)
      (fun promises _ => promises = mapMapByEntry programPipelines (fun entry =>
        (entry.2.groupPipelineMap.lookup group).elim (entry.1, group) GroupPipeline.processOutput)
        ∧ True) (fun _ => True) := by
    refine triple_mapMapByEntryM (I := fun _ _ => True) ?_
    intro passed entry _
    unfold processOutputPromise
    cases entry.2.groupPipelineMap.lookup group with
    | none => exact triple_throw _ fun _ h => h
    | some groupPipeline => exact triple_pure _ fun _ _ => ⟨rfl, trivial⟩
  have hpromises := hpromises s trivial
  rw [h] at hpromises
  rw [List.perm_ext_iff_of_nodup (AList.keys_nodup _) (AList.keys_nodup _)]
  intro programId
  rw [← AList.mem_keys, ← AList.mem_keys, ← AList.lookup_isSome, ← AList.lookup_isSome,
    hpromises.1, lookup_mapMapByEntry, Option.isSome_map]

theorem adding_examPipeline (programPipelines : JMap ProgramId ProgramPipeline) (group : Group) :
    Adding (examPipeline programPipelines group)
      (examPipelineNames programPipelines.keys group) := by
  have hpromises : Adding
      (mapMapByEntryM programPipelines fun entry => processOutputPromise group entry.2) [] := by
    rw [← List.flatMap_eq_nil_iff.mpr fun (programId : ProgramId) (_ : programId ∈
      programPipelines.keys) => (rfl : ([] : List EventName) = [])]
    refine adding_mapMapByEntryM fun entry _ => ?_
    unfold processOutputPromise
    split
    · exact spawns_pure _
    · exact spawns_throw _
  have hexam : Adding (examPipeline programPipelines group)
      ([] ++ (programPipelines.keys.map (.entry group)
        ++ (programPipelines.keys.map (.collect group) ++ [.processOutputs group])
        ++ ([.documentsGenerated group] ++ []))) := by
    refine Adding.bind hpromises fun promises ⟨_, _, hrun⟩ => ?_
    have hperm := perm_keys_processOutputPromises hrun
    refine Adding.bind ((adding_all group promises).perm ?_) fun _ _ => ?_
    · exact (hperm.map _).append ((hperm.map _).append_right _)
    · exact Adding.bind (adding_register _) fun _ _ => spawns_pure _
  simpa [examPipelineNames] using hexam

theorem adding_collect (group : Group) (keys : List ProgramId) :
    Adding (collect group keys) [] := by
  refine Spawns.nothing_bind spawns_get fun s _ => ?_
  split
  · exact spawns_pure _
  · exact spawns_pure _

/-! ### What a callback adds -/

theorem spawned_mapContext (f : PromiseContext → PromiseContext) {new : Multiset EventName} :
    Spawned eventName TaskWorld.effects new s (ContextState.mapContext s f) :=
  ⟨⟨0, Multiset.zero_le new, (add_zero _).symm⟩, rfl⟩

/-- A callback adds its children, and has no effects. -/
theorem spawned_call (h : Inv env none s) {callback : Callback} {before after : List Callback} :
    Spawned eventName TaskWorld.effects (children env (eventName (.called callback)))
      { s with callbacks := before ++ after }
      (call callback { s with callbacks := before ++ after }) := by
  cases callback with
  | workDone ref =>
    show Spawned _ _ _ _ (ContextState.callWorkDone ref _)
    rcases ContextState.callWorkDone_cases { s with callbacks := before ++ after } ref with
      hcall | hcall <;> rw [hcall]
    · exact .refl
    · exact spawned_mapContext _
  | exception ref =>
    show Spawned _ _ _ _ (ContextState.callException ref _)
    rcases ContextState.callException_cases { s with callbacks := before ++ after } ref with
      hcall | ⟨e, hcall⟩ <;> rw [hcall]
    · exact .refl
    · exact spawned_mapContext _
  | programPipelines =>
    refine spawned_callThen fun programTemplates hvalue => ?_
    have hload : loadProgramTemplates env = .ok programTemplates := h.resolved _ _ hvalue
    refine Spawns.map some ?_
    unfold eventName children
    rw [loadedIds_of_load hload]
    exact adding_mapMapByEntryM fun entry _ => adding_programPipeline entry.1 entry.2
  | examPipeline group =>
    refine spawned_callThen fun programPipelines hvalue => ?_
    have hpipelines : IsPipelines env programPipelines := (h.resolved _ _ hvalue).1
    have hperm := (isKeys_of_isPipelines hpipelines).perm isKeys_loadedIds
    refine Spawns.map some ((adding_examPipeline programPipelines group).perm ?_)
    exact ((hperm.map _).append (hperm.map _)).append_right _
  | runProgram programId group =>
    refine spawned_callThen fun compilerOutput _ => ?_
    refine Adding.bind (adding_supplyAsync _) fun _ _ => ?_
    exact Spawns.bind_nothing (adding_register _) fun _ => spawns_pure _
  | runOutput programId group => exact spawned_callThen fun _ _ => spawns_pure _
  | entry group key valuePromise => exact spawned_callThen fun _ _ => spawns_pure _
  | collect group keys key => exact spawned_callThen fun _ _ => adding_collect group keys
  | processOutputs group =>
    exact spawned_callThen fun _ _ => Spawns.map some (spawns_liftExcept _)
  | documentsGenerated group programPipelineMap =>
    refine spawned_callThen fun processOutputs _ => ?_
    refine Adding.bind (adding_supplyAsync _) fun _ _ => ?_
    exact Spawns.bind_nothing (adding_register _) fun _ => spawns_pure _
  | documents group => exact spawned_callThen fun _ _ => spawns_pure _

/-- The end of a task adds nothing. -/
theorem pending_finish (supplier : Supplier) :
    (finish env supplier s).pending eventName = s.pending eventName := by
  unfold finish State.pending
  rw [State.settle_callbacks, State.settle_tasks]
  rfl

theorem lineage_projectTask :
    Lineage (projectTask env) (Inv env none) eventName fun n => (children env n) where
  call _ _ _ _ h _ _ := (spawned_call h).pending
  finish _ supplier _ _ _ _ := pending_finish supplier

/-- Every history keeps the invariant. -/
theorem inv_of_history {past : List (Event Callback Supplier)}
    (h : (projectTask env).History newProjectTask past s) : Inv env none s :=
  h.invariant (fun _ _ _ _ hs hcallbacks hsource => inv_call hs hcallbacks hsource)
    (fun _ _ _ _ hs htasks => inv_finish hs htasks) inv_newProjectTask

/-- What a new task has pending. -/
theorem pending_newProjectTask : newProjectTask.pending eventName =
    ([.workDone .programTemplates, .exception .programTemplates, .programPipelines,
      .examPipeline Group.A, .examPipeline Group.B, .task .programTemplates] :
        List EventName) := rfl

/-! ### Once -/

theorem parent_of_mem_children {n child : EventName} (h : child ∈ children env n) :
    parent child = some n := by
  unfold children at h
  split at h
  · obtain ⟨programId, -, h⟩ := List.mem_flatMap.mp h
    simp only [programPipelineNames, groupPipelineNames, suppliedNames, List.mem_append,
      List.mem_cons, List.not_mem_nil, or_false] at h
    rcases h with ((rfl | rfl | rfl) | rfl) | ((rfl | rfl | rfl) | rfl) <;> rfl
  · simp only [examPipelineNames, List.mem_append, List.mem_map, List.mem_cons, List.not_mem_nil,
      or_false] at h
    rcases h with (⟨programId, -, rfl⟩ | ⟨programId, -, rfl⟩) | (rfl | rfl) <;> rfl
  · simp only [suppliedNames, List.mem_append, List.mem_cons, List.not_mem_nil, or_false] at h
    rcases h with (rfl | rfl | rfl) | rfl <;> rfl
  · simp only [suppliedNames, List.mem_append, List.mem_cons, List.not_mem_nil, or_false] at h
    rcases h with (rfl | rfl | rfl) | rfl <;> rfl
  · cases h

theorem nodup_children (n : EventName) : (children env n).Nodup := by
  have hnodup : (loadedIds env).Nodup := isKeys_loadedIds.1
  unfold children
  split
  · rw [List.nodup_flatMap]
    refine ⟨fun programId _ => ?_, hnodup.imp fun {programId programId'} hne => ?_⟩
    · simp [programPipelineNames, groupPipelineNames, suppliedNames, Group.A, Group.B]
    · refine List.disjoint_left.mpr ?_
      intro name hname hname'
      simp only [programPipelineNames, groupPipelineNames, suppliedNames, List.mem_append,
        List.mem_cons, List.not_mem_nil, or_false] at hname hname'
      rcases hname with ((rfl | rfl | rfl) | rfl) | ((rfl | rfl | rfl) | rfl) <;>
        simp [hne] at hname'
  · rename_i group
    have hentry : Function.Injective (EventName.entry group) := fun _ _ h => by injection h
    have hcollect : Function.Injective (EventName.collect group) := fun _ _ h => by injection h
    refine List.nodup_append.mpr ⟨List.nodup_append.mpr
      ⟨hnodup.map hentry, hnodup.map hcollect, ?_⟩, by simp, ?_⟩
    · rintro name hname name' hname' rfl
      obtain ⟨programId, -, rfl⟩ := List.mem_map.mp hname
      simp at hname'
    · rintro name hname name' hname' rfl
      rcases List.mem_append.mp hname with hname | hname <;>
      · obtain ⟨programId, -, rfl⟩ := List.mem_map.mp hname
        simp at hname'
  · simp [suppliedNames]
  · simp [suppliedNames]
  · exact List.nodup_nil

variable {past : List (Event Callback Supplier)}

/-- **Nothing happens twice in a task**, and what a callback has added happens after it. -/
theorem nodup_of_history (h : (projectTask env).History newProjectTask past s) :
    (((past.map eventName : List EventName) : Multiset EventName) + s.pending eventName).Nodup
    ∧ ∀ n ∈ ((past.map eventName : List EventName) : Multiset EventName) + s.pending eventName,
      ∀ p, parent n = some p → p ∈ past.map eventName := by
  refine lineage_projectTask.nodup (fun _ _ h => inv_of_history h)
    (fun n child hchild => parent_of_mem_children hchild) nodup_children ?_ ?_ h
  · rw [pending_newProjectTask]
    simp [Group.A, Group.B]
  · intro n hn
    rw [pending_newProjectTask] at hn
    simp only [Multiset.mem_coe, List.mem_cons, List.not_mem_nil, or_false] at hn
    rcases hn with rfl | rfl | rfl | rfl | rfl | rfl <;> rfl

/-! ### The end of every run -/

/-- How many events a callback or a task of a workspace with `n` programs can lead to, with its
own. -/
def eventWeight (n : ℕ) : EventName → ℕ
  | .programPipelines => 16 * n + 1
  | .examPipeline _ => 2 * n + 7
  | .runProgram _ _ => 5
  | .documentsGenerated _ => 5
  | _ => 1

theorem eventWeight_children (n : EventName) :
    ((children env n).map (eventWeight (loadedIds env).length)).sum
      < eventWeight (loadedIds env).length n := by
  have hprograms : ∀ ids : List ProgramId,
      ((ids.flatMap programPipelineNames).map (eventWeight (loadedIds env).length)).sum
        = 16 * ids.length := by
    intro ids
    induction ids with
    | nil => rfl
    | cons programId ids ih =>
      rw [List.flatMap_cons, List.map_append, List.sum_append, ih, List.length_cons]
      show 16 + _ = _
      omega
  have hone : ∀ (f : ProgramId → EventName) (ids : List ProgramId),
      (∀ programId, eventWeight (loadedIds env).length (f programId) = 1) →
      ((ids.map f).map (eventWeight (loadedIds env).length)).sum = ids.length := by
    intro f ids hf
    simp [Function.comp_def, hf]
  unfold children
  split
  · rw [hprograms]
    exact Nat.lt_succ_self _
  · unfold examPipelineNames
    rw [List.map_append, List.map_append, List.sum_append, List.sum_append, hone _ _ fun _ => rfl,
      hone _ _ fun _ => rfl]
    show _ + _ + 6 < 2 * _ + 7
    omega
  · show 4 < 5
    omega
  · show 4 < 5
    omega
  · unfold eventWeight
    split <;> simp

/-- **Every run of a task ends**: for a workspace with `n` programs it has at most `20 n + 18`
actions. -/
theorem length_le_of_run {actions : List (Action PromiseRef)}
    (hrun : (projectTask env).run newProjectTask actions = some s) :
    actions.length ≤ 20 * (loadedIds env).length + 18 := by
  obtain ⟨past, hpast, hlength⟩ := System.History.start.run hrun
  have hle := lineage_projectTask.length_add_weight_le (fun _ _ h => inv_of_history h)
    (eventWeight (loadedIds env).length) ?_ hpast
  · rw [pending_newProjectTask, Multiset.map_coe, Multiset.sum_coe] at hle
    simp only [List.map_cons, List.map_nil, List.sum_cons, List.sum_nil, eventWeight] at hle
    simp only [List.length_nil] at hlength
    omega
  · intro n
    rw [Multiset.map_coe, Multiset.sum_coe]
    exact eventWeight_children n

end ExamGeneratorNg
