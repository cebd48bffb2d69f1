import ExamGeneratorNg.Equiv.ProjectTask

/-!
# The progress of a project task

The two counters of the `PromiseContext` along a run.  A callback that supplies tasks counts them
in `workTotal` and leaves `workDone` alone (`Adds`), so whenever `workTotal` grows, `workDone` is
behind it.
-/

namespace ExamGeneratorNg

open Promise Stateful

variable {env : Environment} {s s' : TaskState}

/-! ### What code adds -/

/-- The callbacks that count a task in `workDone`. -/
def Callback.isWorkDone : Callback → Bool
  | workDone _ => true
  | _ => false

/-- The number of tasks that have not been counted in `workDone`. -/
def uncounted (s : TaskState) : ℕ := s.callbacks.countP Callback.isWorkDone

/-- What the code of the pipelines may do to a state: supply tasks and register callbacks. -/
structure Adds (s s' : TaskState) : Prop where
  outcome : ∀ ref, (∀ group, ref ≠ .entries group) → s'.outcome ref = s.outcome ref
  kept : ∀ ref r, s.outcome ref = some r → s'.outcome ref = some r
  workDone : s'.world.promiseContext.workDone = s.world.promiseContext.workDone
  exception : s'.world.promiseContext.exception = s.world.promiseContext.exception
  workTotal_le : s.world.promiseContext.workTotal ≤ s'.world.promiseContext.workTotal
  uncounted : uncounted s' + s.world.promiseContext.workTotal
    = uncounted s + s'.world.promiseContext.workTotal
  tasks_subset : s.tasks ⊆ s'.tasks
  tasks : s'.tasks = s.tasks
    ∨ s.world.promiseContext.workTotal < s'.world.promiseContext.workTotal

theorem Adds.refl : Adds s s :=
  ⟨fun _ _ => rfl, fun _ _ h => h, rfl, rfl, le_rfl, rfl, List.Subset.refl _, .inl rfl⟩

theorem Adds.trans {s'' : TaskState} (h : Adds s s') (h' : Adds s' s'') : Adds s s'' where
  outcome ref href := (h'.outcome ref href).trans (h.outcome ref href)
  kept ref r hr := h'.kept ref r (h.kept ref r hr)
  workDone := h'.workDone.trans h.workDone
  exception := h'.exception.trans h.exception
  workTotal_le := h.workTotal_le.trans h'.workTotal_le
  uncounted := by
    have h₁ := h.uncounted
    have h₂ := h'.uncounted
    omega
  tasks_subset := List.Subset.trans h.tasks_subset h'.tasks_subset
  tasks := by
    have h₁ := h.workTotal_le
    have h₂ := h'.workTotal_le
    rcases h.tasks with heq | hlt
    · rcases h'.tasks with heq' | hlt'
      · exact .inl (heq'.trans heq)
      · exact .inr (by omega)
    · exact .inr (by omega)

/-- Code that only adds to the state, whether it throws or not. -/
def Steady {α : Type} (x : UiCode α) : Prop :=
  ∀ s₀, Triple (Adds s₀) x (fun _ => Adds s₀) (Adds s₀)

section

variable {α β : Type}

theorem steady_pure (a : α) : Steady (pure a : UiCode α) := fun _ => triple_pure a fun _ h => h

theorem steady_throw (e : JavaException) : Steady (throw e : UiCode α) :=
  fun _ => triple_throw e fun _ h => h

theorem Steady.bind {x : UiCode α} {f : α → UiCode β} (hx : Steady x) (hf : ∀ a, Steady (f a)) :
    Steady (x >>= f) :=
  fun s₀ => triple_bind (hx s₀) fun a => hf a s₀

theorem Steady.map {x : UiCode α} (f : α → β) (hx : Steady x) : Steady (f <$> x) :=
  fun s₀ => triple_map f (hx s₀) fun _ _ h => h

theorem steady_get : Steady (get : UiCode TaskState) := fun _ => triple_get fun _ h => h

theorem steady_liftExcept (x : Except JavaException α) : Steady (liftExcept x : UiCode α) :=
  fun _ => triple_liftExcept x (fun _ _ _ h => h) fun _ _ _ h => h

theorem steady_modify {f : TaskState → TaskState} (hf : ∀ s, Adds s (f s)) :
    Steady (modify f : UiCode Unit) :=
  fun _ => triple_modify f fun s h => h.trans (hf s)

theorem steady_forM {ι : Type} {f : ι → UiCode Unit} (xs : List ι) (hf : ∀ x, Steady (f x)) :
    Steady (forM xs f) :=
  fun s₀ => triple_forM (I := fun _ => Adds s₀) fun _ x _ => hf x s₀

theorem steady_mapMapByEntryM {K V₁ V₂ : Type} [DecidableEq K] {inputMap : JMap K V₁}
    {valueMapper : Entry K V₁ → UiCode V₂} (hf : ∀ entry, Steady (valueMapper entry)) :
    Steady (mapMapByEntryM inputMap valueMapper) :=
  fun s₀ => triple_foldlM inputMap.entries (I := fun _ _ => Adds s₀)
    (fun _ _ entry _ => ((hf entry).bind fun _ => steady_pure _) s₀) ∅

end

/-! ### The code of the pipelines -/

theorem adds_supply (supplier : Supplier) : Adds s (supply supplier s) where
  outcome _ _ := rfl
  kept _ _ h := h
  workDone := rfl
  exception := rfl
  workTotal_le := Nat.le_succ _
  uncounted := by
    show (List.countP _ ((s.callbacks ++ [_]) ++ [_])) + _ = _ + (_ + 1)
    rw [List.countP_append, List.countP_append]
    show (s.callbacks.countP Callback.isWorkDone + 1 + 0) + _ = _
    unfold uncounted
    omega
  tasks_subset := List.subset_append_left _ _
  tasks := .inr (Nat.lt_succ_self _)

theorem steady_supplyAsync (supplier : Supplier) : Steady (supplyAsync supplier) := by
  refine steady_get.bind fun s => ?_
  refine (steady_liftExcept _).bind fun _ => ?_
  exact steady_modify fun s => adds_supply supplier

theorem adds_registerAll (callbacks : List Callback)
    (h : ∀ callback ∈ callbacks, callback.isWorkDone = false) :
    Adds s (s.registerAll callbacks) where
  outcome _ _ := rfl
  kept _ _ h := h
  workDone := rfl
  exception := rfl
  workTotal_le := le_rfl
  uncounted := by
    have hzero : callbacks.countP Callback.isWorkDone = 0 := by
      rw [List.countP_eq_zero]
      intro callback hcallback
      rw [h callback hcallback]
      exact Bool.false_ne_true
    unfold ExamGeneratorNg.uncounted
    rw [State.registerAll_callbacks, List.countP_append, hzero]
    rfl
  tasks_subset := List.Subset.refl _
  tasks := .inl rfl

theorem steady_register {callback : Callback} (h : callback.isWorkDone = false) :
    Steady (register callback) := by
  refine steady_modify fun s => adds_registerAll [callback] ?_
  intro callback' hcallback'
  rwa [List.mem_singleton.mp hcallback']

theorem steady_groupPipeline (programId : ProgramId) (programTemplate : ProgramTemplate)
    (group : Group) : Steady (groupPipeline programId programTemplate group) := by
  refine (steady_supplyAsync _).bind fun _ => ?_
  exact (steady_register rfl).bind fun _ => steady_pure _

theorem steady_programPipeline (programId : ProgramId) (programTemplate : ProgramTemplate) :
    Steady (programPipeline programId programTemplate) := by
  refine (steady_groupPipeline _ _ _).bind fun _ => ?_
  exact (steady_groupPipeline _ _ _).bind fun _ => steady_pure _

theorem adds_settle_entries (group : Group)
    (r : Except JavaException (PromiseRef.entries group).Value) :
    Adds s (s.settle (.entries group) r) where
  outcome ref href := s.settle_outcome_of_ne (href group) r
  kept _ _ h := s.settle_outcome_of_some h
  workDone := by simp
  exception := by simp
  workTotal_le := by simp
  uncounted := by simp [uncounted]
  tasks_subset := by simp
  tasks := .inl (by simp)

theorem steady_factoryAll (group : Group) (keys : List ProgramId) :
    Steady (factoryAll group keys) := by
  unfold factoryAll
  split
  · exact steady_modify fun s => adds_settle_entries group _
  · refine steady_modify fun s => adds_registerAll _ ?_
    intro callback hcallback
    obtain ⟨key, -, rfl⟩ := List.mem_map.mp hcallback
    rfl

theorem steady_all (group : Group) (inputMap : JMap ProgramId (ProgramId × Group)) :
    Steady (all group inputMap) := by
  refine (steady_forM _ fun entry => steady_register rfl).bind fun _ => ?_
  exact (steady_factoryAll _ _).bind fun _ => steady_register rfl

theorem steady_examPipeline (programPipelines : JMap ProgramId ProgramPipeline) (group : Group) :
    Steady (examPipeline programPipelines group) := by
  refine (steady_mapMapByEntryM fun entry => ?_).bind fun _ => ?_
  · unfold processOutputPromise
    split
    · exact steady_pure _
    · exact steady_throw _
  · refine (steady_all _ _).bind fun _ => ?_
    exact (steady_register rfl).bind fun _ => steady_pure _

theorem steady_collect (group : Group) (keys : List ProgramId) : Steady (collect group keys) := by
  refine steady_get.bind fun s => ?_
  split
  · exact steady_pure _
  · exact steady_pure _

/-! ### What a callback does -/

/-- A callback that `then` has registered only adds to the state, and may settle its target. -/
theorem callThen_adds {source target : PromiseRef}
    {body : source.Value → UiCode (Option target.Value)} (hbody : ∀ value, Steady (body value)) :
    ∃ s', Adds s s' ∧ (callThen source target body s = s'
      ∨ ∃ r, callThen source target body s = s'.settle target r) := by
  unfold callThen
  cases s.outcome source with
  | none => exact ⟨s, .refl, .inl rfl⟩
  | some r =>
    cases r with
    | error e => exact ⟨s, .refl, .inr ⟨_, rfl⟩⟩
    | ok value =>
      have hsteady := hbody value s s .refl
      dsimp only
      rcases hrun : (body value).run.run s with ⟨⟨⟩ | ⟨_ | result⟩, s'⟩
      · rw [hrun] at hsteady
        exact ⟨s', hsteady, .inr ⟨_, rfl⟩⟩
      · rw [hrun] at hsteady
        exact ⟨s', hsteady, .inl rfl⟩
      · rw [hrun] at hsteady
        exact ⟨s', hsteady, .inr ⟨_, rfl⟩⟩

/-- Everything a callback can do to the state: count a task as done, keep an exception, or add to
the state and perhaps settle its target. -/
theorem call_cases (callback : Callback) (s : TaskState) :
    (∃ ref, callback = .workDone ref ∧ (call callback s = s ∨ call callback s
      = ContextState.mapContext s fun context => { context with workDone := context.workDone + 1 }))
    ∨ (∃ ref, callback = .exception ref ∧ (call callback s = s ∨ ∃ e, call callback s
      = ContextState.mapContext s fun context => { context with exception := some e }))
    ∨ (∃ target s', callback.isWorkDone = false ∧ callback.target = some target ∧ Adds s s'
      ∧ (call callback s = s' ∨ ∃ r, call callback s = s'.settle target r)) := by
  -- the callbacks that `then` has registered differ in their bodies only
  have hthen : ∀ {source target : PromiseRef} {body : source.Value → UiCode (Option target.Value)},
      callback.isWorkDone = false → callback.target = some target →
      call callback s = callThen source target body s → (∀ value, Steady (body value)) →
      ∃ target s', callback.isWorkDone = false ∧ callback.target = some target ∧ Adds s s'
        ∧ (call callback s = s' ∨ ∃ r, call callback s = s'.settle target r) := by
    intro source target body hworkDone htarget hcall hbody
    obtain ⟨s', hadds, h⟩ := callThen_adds (s := s) hbody
    exact ⟨target, s', hworkDone, htarget, hadds, hcall ▸ h⟩
  cases callback with
  | workDone ref => exact .inl ⟨ref, rfl, ContextState.callWorkDone_cases s ref⟩
  | exception ref => exact .inr (.inl ⟨ref, rfl, ContextState.callException_cases s ref⟩)
  | programPipelines =>
    refine .inr (.inr (hthen rfl rfl rfl fun value => Steady.map _ ?_))
    exact steady_mapMapByEntryM fun entry => steady_programPipeline _ _
  | examPipeline group =>
    exact .inr (.inr (hthen rfl rfl rfl fun value => Steady.map _ (steady_examPipeline _ _)))
  | runProgram programId group =>
    refine .inr (.inr (hthen rfl rfl rfl fun value => (steady_supplyAsync _).bind fun _ => ?_))
    exact (steady_register rfl).bind fun _ => steady_pure _
  | runOutput programId group =>
    have hcall : call (.runOutput programId group) s =
        callThen (.runOutput programId group) (.processOutput programId group)
          (fun value => pure (some value)) s := rfl
    exact .inr (.inr (hthen rfl rfl hcall fun value => steady_pure _))
  | entry group key valuePromise =>
    have hcall : call (.entry group key valuePromise) s =
        callThen (.processOutput valuePromise.1 valuePromise.2) (.entry group key)
          (fun value => pure (some ⟨key, value⟩)) s := rfl
    exact .inr (.inr (hthen rfl rfl hcall fun value => steady_pure _))
  | collect group keys key =>
    exact .inr (.inr (hthen rfl rfl rfl fun value => steady_collect _ _))
  | processOutputs group =>
    exact .inr (.inr (hthen rfl rfl rfl fun value => Steady.map _ (steady_liftExcept _)))
  | documentsGenerated group programPipelineMap =>
    refine .inr (.inr (hthen rfl rfl rfl fun value => (steady_supplyAsync _).bind fun _ => ?_))
    exact (steady_register rfl).bind fun _ => steady_pure _
  | documents group =>
    have hcall : call (.documents group) s =
        callThen (.documents group) (.documentsGenerated group)
          (fun value => pure (some value)) s := rfl
    exact .inr (.inr (hthen rfl rfl hcall fun value => steady_pure _))

/-- A callback stops no task. -/
theorem tasks_subset_call (callback : Callback) (s : TaskState) :
    s.tasks ⊆ (call callback s).tasks := by
  rcases call_cases callback s with ⟨ref, -, hcall | hcall⟩ | ⟨ref, -, hcall | ⟨e, hcall⟩⟩
    | ⟨target, s', -, -, hadds, hcall | ⟨r, hcall⟩⟩
  · rw [hcall]
    exact List.Subset.refl _
  · rw [hcall]
    exact List.Subset.refl _
  · rw [hcall]
    exact List.Subset.refl _
  · rw [hcall]
    exact List.Subset.refl _
  · rw [hcall]
    exact hadds.tasks_subset
  · rw [hcall, State.settle_tasks]
    exact hadds.tasks_subset

/-! ### The counters along a run -/

/-- The promises of programs and documents: they are settled only after tasks for them have been
supplied. -/
def NeedsWork : PromiseRef → Prop
  | .compilerOutput _ _ => True
  | .runOutput _ _ => True
  | .processOutput _ _ => True
  | .documents _ => True
  | _ => False

/-- What the counters say in every state. -/
structure Counts (s : TaskState) : Prop where
  one_le : 1 ≤ s.world.promiseContext.workTotal
  le : s.world.promiseContext.workDone + uncounted s ≤ s.world.promiseContext.workTotal
  /-- as long as only one task has been supplied, it is the one that loads the workspace -/
  tasks : s.world.promiseContext.workTotal ≤ 1 → ∀ supplier ∈ s.tasks,
    supplier = .loadProgramTemplates
  outcome : s.world.promiseContext.workTotal ≤ 1 → ∀ ref, NeedsWork ref → s.outcome ref = none

theorem counts_newProjectTask : Counts newProjectTask where
  one_le := le_rfl
  le := le_rfl
  tasks _ _ h := List.mem_singleton.mp h
  outcome _ _ _ := rfl

/-- A callback that only adds to the state keeps `Counts`. -/
theorem Counts.adds (h : Counts s) (hadds : Adds s s') : Counts s' where
  one_le := h.one_le.trans hadds.workTotal_le
  le := by
    have hle := h.le
    have hdone := hadds.workDone
    have huncounted := hadds.uncounted
    omega
  tasks htotal := by
    -- if a task has been supplied, there are at least two
    have hle := hadds.workTotal_le
    rcases hadds.tasks with heq | hlt
    · rw [heq]
      exact h.tasks (by omega)
    · have hone := h.one_le
      omega
  outcome htotal ref hwork := by
    have hle := hadds.workTotal_le
    rw [hadds.outcome ref (by rintro group rfl; exact hwork)]
    exact h.outcome (by omega) ref hwork

/-- Settling a promise keeps `Counts`, if it needs no work or some has been supplied. -/
theorem Counts.settle (h : Counts s) {ref : PromiseRef} {r : Except JavaException ref.Value}
    (hwork : s.world.promiseContext.workTotal ≤ 1 → ¬ NeedsWork ref) : Counts (s.settle ref r) where
  one_le := by simpa using h.one_le
  le := by simpa [uncounted] using h.le
  tasks := by simpa using h.tasks
  outcome := by
    rw [State.settle_world]
    intro htotal ref' hwork'
    rw [s.settle_outcome_of_ne]
    · exact h.outcome htotal ref' hwork'
    · rintro rfl
      exact hwork htotal hwork'

/-- A callback that needs work done for its target needs work done for its source. -/
theorem needsWork_source {callback : Callback} {target : PromiseRef}
    (htarget : callback.target = some target) (hwork : NeedsWork target) :
    NeedsWork callback.source := by
  cases callback <;> cases htarget <;> trivial

theorem uncounted_take {callback : Callback} {before after : List Callback}
    (hcallbacks : s.callbacks = before ++ callback :: after) :
    uncounted { s with callbacks := before ++ after } + (if callback.isWorkDone then 1 else 0)
      = uncounted s := by
  unfold uncounted
  rw [hcallbacks, List.countP_append, List.countP_append, List.countP_cons]
  omega

theorem Counts.take (h : Counts s) {callback : Callback} {before after : List Callback}
    (hcallbacks : s.callbacks = before ++ callback :: after) :
    Counts { s with callbacks := before ++ after } where
  one_le := h.one_le
  le := by
    have hle := h.le
    have htake := uncounted_take hcallbacks
    show s.world.promiseContext.workDone + _ ≤ s.world.promiseContext.workTotal
    omega
  tasks := h.tasks
  outcome := h.outcome

theorem counts_call (h : Counts s) {callback : Callback} {before after : List Callback}
    (hcallbacks : s.callbacks = before ++ callback :: after)
    (hsource : (s.outcome callback.source).isSome) :
    Counts (call callback { s with callbacks := before ++ after }) := by
  have htaken := h.take hcallbacks
  rcases call_cases callback { s with callbacks := before ++ after } with
    ⟨ref, rfl, hcall | hcall⟩ | ⟨ref, rfl, hcall | ⟨e, hcall⟩⟩
      | ⟨target, s', -, htarget, hadds, hcall⟩
  · rw [hcall]
    exact htaken
  · -- the task that is counted was uncounted before
    rw [hcall]
    refine ⟨h.one_le, ?_, h.tasks, h.outcome⟩
    have hle := h.le
    have htake : uncounted { s with callbacks := before ++ after } + 1 = uncounted s :=
      uncounted_take hcallbacks
    show s.world.promiseContext.workDone + 1 + uncounted { s with callbacks := before ++ after }
      ≤ s.world.promiseContext.workTotal
    omega
  · rw [hcall]
    exact htaken
  · rw [hcall]
    exact ⟨htaken.one_le, htaken.le, htaken.tasks, htaken.outcome⟩
  · have hadded := htaken.adds hadds
    rcases hcall with hcall | ⟨r, hcall⟩
    · rw [hcall]
      exact hadded
    · rw [hcall]
      apply hadded.settle
      intro htotal hwork
      have hle := hadds.workTotal_le
      have hnone := h.outcome (hle.trans htotal) _ (needsWork_source htarget hwork)
      rw [hnone] at hsource
      cases hsource

theorem counts_finish (h : Counts s) {supplier : Supplier} {before after : List Supplier}
    (htasks : s.tasks = before ++ supplier :: after) :
    Counts (finish env supplier { s with tasks := before ++ after }) := by
  have hold : ∀ supplier' ∈ before ++ after, supplier' ∈ s.tasks := by
    intro supplier' h'
    rw [htasks]
    simp only [List.mem_append, List.mem_cons] at h' ⊢
    tauto
  have htaken : Counts (ContextState.addEffects { s with tasks := before ++ after }
      (runSupplier env supplier).effects) :=
    ⟨h.one_le, h.le, fun htotal supplier' h' => h.tasks htotal supplier' (hold supplier' h'),
      h.outcome⟩
  apply htaken.settle
  intro htotal hwork
  have hsupplier := h.tasks htotal supplier (by rw [htasks]; simp)
  rw [hsupplier] at hwork
  exact hwork

theorem reachable_counts (h : (projectTask env).Reachable newProjectTask s) : Counts s :=
  h.invariant (fun _ _ _ _ hs hcallbacks hsource => counts_call hs hcallbacks hsource)
    (fun _ _ _ _ hs htasks => counts_finish hs htasks) counts_newProjectTask

/-! ### What stays known along a run -/

theorem call_kept (callback : Callback) :
    (∀ ref r, s.outcome ref = some r → (call callback s).outcome ref = some r)
    ∧ (s.world.promiseContext.exception.isSome →
      (call callback s).world.promiseContext.exception.isSome) := by
  rcases call_cases callback s with ⟨ref, -, hcall | hcall⟩ | ⟨ref, -, hcall | ⟨e, hcall⟩⟩
      | ⟨target, s', -, -, hadds, hcall | ⟨r, hcall⟩⟩ <;> rw [hcall]
  · exact ⟨fun _ _ h => h, fun h => h⟩
  · exact ⟨fun _ _ h => h, fun h => h⟩
  · exact ⟨fun _ _ h => h, fun h => h⟩
  · exact ⟨fun _ _ h => h, fun _ => rfl⟩
  · exact ⟨hadds.kept, fun h => hadds.exception ▸ h⟩
  · refine ⟨fun ref r h => s'.settle_outcome_of_some (hadds.kept ref r h), fun h => ?_⟩
    rw [State.settle_world]
    exact hadds.exception ▸ h

theorem finish_kept (supplier : Supplier) {ref : PromiseRef} {r : Except JavaException ref.Value}
    (hr : s.outcome ref = some r) : (finish env supplier s).outcome ref = some r :=
  State.settle_outcome_of_some (ContextState.addEffects s _) hr

theorem finish_promiseContext (supplier : Supplier) :
    (finish env supplier s).world.promiseContext = s.world.promiseContext := by
  unfold finish
  dsimp only
  rw [State.settle_world]
  rfl

theorem outcome_kept (h : (projectTask env).Reachable s s') {ref : PromiseRef}
    {r : Except JavaException ref.Value} (hr : s.outcome ref = some r) :
    s'.outcome ref = some r := by
  refine h.invariant (I := fun s => s.outcome ref = some r) ?_ ?_ hr
  · intro s callback before after hr _ _
    exact (call_kept callback).1 ref r hr
  · intro s supplier before after hr _
    exact finish_kept supplier hr

theorem exception_kept (h : (projectTask env).Reachable s s')
    (hs : s.world.promiseContext.exception.isSome) :
    s'.world.promiseContext.exception.isSome := by
  refine h.invariant (I := fun s => s.world.promiseContext.exception.isSome = true) ?_ ?_ hs
  · intro s callback before after hs _ _
    exact (call_kept callback).2 hs
  · intro s supplier before after hs _
    show (finish env supplier _).world.promiseContext.exception.isSome
    rw [finish_promiseContext]
    exact hs

/-- An action that supplies a task leaves `workDone` as it is. -/
theorem workDone_of_workTotal_ne {action : Action PromiseRef}
    (h : (projectTask env).next s action = some s')
    (hne : s'.world.promiseContext.workTotal ≠ s.world.promiseContext.workTotal) :
    s'.world.promiseContext.workDone = s.world.promiseContext.workDone := by
  rcases System.next_cases h with ⟨callback, before, after, -, -, -, -, rfl⟩
    | ⟨supplier, before, after, -, -, rfl⟩
  · rcases call_cases callback { s with callbacks := before ++ after } with
      ⟨ref, -, hcall | hcall⟩ | ⟨ref, -, hcall | ⟨e, hcall⟩⟩
        | ⟨target, s', -, -, hadds, hcall | ⟨r, hcall⟩⟩
    · exact absurd (congrArg (fun s => s.world.promiseContext.workTotal) hcall) hne
    · exact absurd (congrArg (fun s => s.world.promiseContext.workTotal) hcall) hne
    · exact absurd (congrArg (fun s => s.world.promiseContext.workTotal) hcall) hne
    · exact absurd (congrArg (fun s => s.world.promiseContext.workTotal) hcall) hne
    · show (call callback _).world.promiseContext.workDone = _
      rw [hcall]
      exact hadds.workDone
    · show (call callback _).world.promiseContext.workDone = _
      rw [hcall, State.settle_world]
      exact hadds.workDone
  · refine absurd ?_ hne
    show (finish env supplier _).world.promiseContext.workTotal = _
    rw [finish_promiseContext]

/-! ### A task that succeeds too early -/

/-- In every complete run without a failure, more than one task is supplied. -/
theorem two_le_workTotal (hreachable : (projectTask env).Reachable newProjectTask s)
    (hquiescent : (projectTask env).Quiescent s)
    (hexception : s.world.promiseContext.exception = none) :
    2 ≤ s.world.promiseContext.workTotal := by
  have hinv := reachable_inv hreachable
  by_contra htotal
  have hnone := (reachable_counts hreachable).outcome (by omega)
  obtain ⟨programPipelines, hpipelines⟩ :=
    hinv.exists_value hquiescent hexception False.elim (hinv.started .programPipelines trivial)
  obtain ⟨-, hlive⟩ := hinv.resolved _ _ hpipelines
  by_cases hloaded : ∃ programId programTemplate, Loaded env programId programTemplate
  · -- a program has been compiled and run
    obtain ⟨programId, programTemplate, hloaded⟩ := hloaded
    have hsettled := hinv.settled hquiescent (hlive _ _ Group.A hloaded (.inl rfl))
    rw [hnone (.processOutput programId Group.A) trivial] at hsettled
    cases hsettled
  · -- there is no program, and documents have been generated
    have hexits : ExitsWithZero env := by
      rintro programId group compilerOutput program processOutput - ⟨programTemplate, h, -⟩ - -
      exact absurd ⟨programId, programTemplate, h⟩ hloaded
    have hdocuments : s.outcome (.documents Group.A) = some (.ok ()) :=
      hinv.resolved _ _ (hinv.documentsGenerated hquiescent hexception hexits (.inl rfl))
    rw [hnone (.documents Group.A) trivial] at hdocuments
    cases hdocuments

/-- The first action is the end of the task that loads the workspace. -/
theorem next_newProjectTask {action : Action PromiseRef}
    (h : (projectTask env).next newProjectTask action = some s) :
    s.outcome .programTemplates = some (loadProgramTemplates env)
    ∧ (∀ ref, ref ≠ .programTemplates → s.outcome ref = none)
    ∧ s.callbacks = newProjectTask.callbacks ∧ s.tasks = []
    ∧ s.world.promiseContext = ⟨0, 1, none⟩ := by
  rcases System.next_cases h with ⟨callback, before, after, -, hsource, -⟩
    | ⟨supplier, before, after, -, htasks, rfl⟩
  · cases hsource
  · have hsupplier : before = [] ∧ supplier = .loadProgramTemplates ∧ after = [] := by
      rw [newProjectTask_eq] at htasks
      cases before with
      | nil => simpa [eq_comm] using htasks
      | cons x before => simp at htasks
    obtain ⟨rfl, rfl, rfl⟩ := hsupplier
    exact ⟨rfl, fun ref href => Function.update_of_ne href _ _, rfl, rfl, rfl⟩

/-- The second action counts that task as done. -/
theorem next_loaded {action : Action PromiseRef} {programTemplates : JMap ProgramId ProgramTemplate}
    (hload : s.outcome .programTemplates = some (.ok programTemplates))
    (hnone : ∀ ref, ref ≠ .programTemplates → s.outcome ref = none)
    (hcallbacks : s.callbacks = newProjectTask.callbacks) (htasks : s.tasks = [])
    (hcontext : s.world.promiseContext = ⟨0, 1, none⟩)
    (h : (projectTask env).next s action = some s') :
    s'.world.promiseContext = ⟨1, 1, none⟩ := by
  rcases System.next_cases h with ⟨callback, before, after, -, hsource, hsplit, hfirst, rfl⟩
    | ⟨supplier, before, after, -, htasks', -⟩
  · have hsource : callback.source = .programTemplates := by
      by_contra hne
      rw [show (projectTask env).source callback = callback.source from rfl, hnone _ hne] at hsource
      cases hsource
    rw [hcallbacks, newProjectTask_eq] at hsplit
    cases before with
    | nil =>
      -- the callback that counts is the first of its promise
      have hcallback : callback = .workDone .programTemplates := by
        simpa [eq_comm] using congrArg List.head? hsplit
      subst hcallback
      change TaskWorld.promiseContext (State.world (ContextState.callWorkDone _ _)) = _
      unfold ContextState.callWorkDone
      dsimp only
      rw [hload]
      show (⟨s.world.promiseContext.workDone + 1, _, _⟩ : PromiseContext) = _
      rw [hcontext]
    | cons x before =>
      have hx : x = .workDone .programTemplates := by
        simpa [eq_comm] using congrArg List.head? hsplit
      exact absurd (by rw [hx]; exact hsource.symm) (hfirst x List.mem_cons_self)
  · rw [htasks] at htasks'
    cases before <;> cases htasks'

/-- A complete run in which the workspace is loaded begins with the end of that task and with
counting it. -/
theorem exists_loaded {actions : List (Action PromiseRef)}
    (hrun : (projectTask env).run newProjectTask actions = some s)
    (hquiescent : (projectTask env).Quiescent s)
    (hsuccess : ∀ e, s.outcome .programTemplates ≠ some (.error e)) :
    ∃ loaded rest s₁, actions = loaded ++ rest
      ∧ (projectTask env).run newProjectTask loaded = some s₁
      ∧ s₁.world.promiseContext = ⟨1, 1, none⟩ ∧ (projectTask env).run s₁ rest = some s := by
  rcases actions with - | ⟨action₁, actions⟩
  · rw [System.run_nil, Option.some.injEq] at hrun
    subst hrun
    cases hquiescent.1
  rw [System.run_cons] at hrun
  obtain ⟨sₗ, hsₗ, hrun⟩ := Option.bind_eq_some_iff.mp hrun
  obtain ⟨hload, hnone, hcallbacks, htasks, hcontext⟩ := next_newProjectTask hsₗ
  cases hresult : loadProgramTemplates env with
  | error e =>
    rw [hresult] at hload
    exact absurd (outcome_kept ⟨actions, hrun⟩ hload) (hsuccess e)
  | ok programTemplates =>
    rw [hresult] at hload
    rcases actions with - | ⟨action₂, actions⟩
    · -- the callback that counts the task can be called
      rw [System.run_nil, Option.some.injEq] at hrun
      subst hrun
      have hpending := hquiescent.2 (.workDone .programTemplates) (by
        rw [hcallbacks]
        exact List.mem_cons_self)
      rw [show (projectTask env).source (.workDone .programTemplates) = .programTemplates from rfl,
        hload] at hpending
      cases hpending
    · rw [System.run_cons] at hrun
      obtain ⟨s₁, hs₁, hrun⟩ := Option.bind_eq_some_iff.mp hrun
      have hcontext₁ := next_loaded hload hnone hcallbacks htasks hcontext hs₁
      refine ⟨[action₁, action₂], actions, s₁, rfl, ?_, hcontext₁, hrun⟩
      rw [System.run_cons, hsₗ, Option.bind_some, System.run_cons, hs₁]
      rfl

/-- When a second task is supplied, the state is `RUNNING`. -/
theorem exists_running {actions : List (Action PromiseRef)}
    (hreachable : (projectTask env).Reachable newProjectTask s')
    (hone : s'.world.promiseContext.workTotal = 1)
    (hrun : (projectTask env).run s' actions = some s)
    (hexception : s.world.promiseContext.exception = none)
    (htotal : 2 ≤ s.world.promiseContext.workTotal) :
    ∃ before after s₂, actions = before ++ after
      ∧ (projectTask env).run s' before = some s₂ ∧ getState s₂ = .running := by
  have hfew : ¬ 2 ≤ s'.world.promiseContext.workTotal := by omega
  obtain ⟨before, action, after, s₁, s₂, rfl, hbefore, hbehind, hnext, hmore, hafter⟩ :=
    System.exists_action_of_run (p := fun s => 2 ≤ s.world.promiseContext.workTotal) hrun hfew
      htotal
  have hreachable₁ : (projectTask env).Reachable newProjectTask s₁ :=
    hreachable.trans ⟨before, hbefore⟩
  -- `workDone` has not been raised by the action that has raised `workTotal`
  have hle := (reachable_counts hreachable₁).le
  have hdone := workDone_of_workTotal_ne hnext (by omega)
  have hexception₂ : s₂.world.promiseContext.exception = none := by
    by_contra hsome
    have hsome := exception_kept ⟨after, hafter⟩ (Option.isSome_iff_ne_none.mpr hsome)
    rw [hexception] at hsome
    cases hsome
  refine ⟨before ++ [action], after, s₂, by simp, ?_, ?_⟩
  · rw [System.run_append, hbefore, Option.bind_some, System.run_cons, hnext]
    rfl
  · rw [getState_eq, if_pos hexception₂, if_neg]
    omega

/-- **A task without a failure always succeeds too early.**  In every complete run in which all
tasks succeed, the state is `SUCCEEDED` at some point and `RUNNING` at a later one: when the task
that loads the workspace has been counted it is the only one, and `workTotal` is raised for the
others afterwards. -/
theorem succeeded_then_running {actions : List (Action PromiseRef)}
    (hrun : (projectTask env).run newProjectTask actions = some s)
    (hquiescent : (projectTask env).Quiescent s)
    (hsuccess : ∀ (supplier : Supplier) e, s.outcome supplier.promise ≠ some (.error e)) :
    ∃ before middle after s₁ s₂, actions = before ++ middle ++ after
      ∧ (projectTask env).run newProjectTask before = some s₁
      ∧ getState s₁ = .succeeded ∧ canStartTask (some s₁) = true
      ∧ (projectTask env).run s₁ middle = some s₂ ∧ getState s₂ = .running := by
  have hreachable : (projectTask env).Reachable newProjectTask s := ⟨actions, hrun⟩
  have hexception : s.world.promiseContext.exception = none := by
    by_contra hsome
    obtain ⟨-, supplier, e, he⟩ :=
      (reachable_inv hreachable).failed (Option.isSome_iff_ne_none.mpr hsome)
    exact hsuccess supplier e he
  have htotal := two_le_workTotal hreachable hquiescent hexception
  obtain ⟨before, rest, s₁, rfl, hbefore, hcontext, hrest⟩ :=
    exists_loaded hrun hquiescent (hsuccess .loadProgramTemplates)
  have hstate : getState s₁ = .succeeded := by
    rw [getState_eq, hcontext]
    rfl
  have hone : s₁.world.promiseContext.workTotal = 1 := by rw [hcontext]
  obtain ⟨middle, after, s₂, rfl, hmiddle, hrunning⟩ :=
    exists_running ⟨before, hbefore⟩ hone hrest hexception htotal
  refine ⟨before, middle, after, s₁, s₂, ?_, hbefore, hstate, ?_, hmiddle, hrunning⟩
  · rw [List.append_assoc]
  · unfold canStartTask
    simp [hstate]

/-- A program that exits with status 0. -/
theorem succeeded_then_running_example :
    ∃ actions before middle after s₁ s₂, actions = before ++ middle ++ after
      ∧ (projectTask (oneProgramEnvironment 0)).run newProjectTask actions = some (oneProgramRun 0)
      ∧ (projectTask (oneProgramEnvironment 0)).run newProjectTask before = some s₁
      ∧ getState s₁ = .succeeded ∧ canStartTask (some s₁) = true
      ∧ (projectTask (oneProgramEnvironment 0)).run s₁ middle = some s₂
      ∧ getState s₂ = .running := by
  obtain ⟨actions, hrun⟩ := reachable_oneProgramRun 0
  have hquiescent : (projectTask (oneProgramEnvironment 0)).Quiescent (oneProgramRun 0) := by
    decide +kernel
  have hexception : (oneProgramRun 0).world.promiseContext.exception = none := by decide +kernel
  have hsuccess : ∀ (supplier : Supplier) e,
      (oneProgramRun 0).outcome supplier.promise ≠ some (.error e) := by
    intro supplier e
    refine (reachable_inv ⟨actions, hrun⟩).not_rejected hquiescent hexception ?_ e
    cases supplier <;> exact False.elim
  obtain ⟨before, middle, after, s₁, s₂, heq, hbefore, hrest⟩ :=
    succeeded_then_running hrun hquiescent hsuccess
  exact ⟨actions, before, middle, after, s₁, s₂, heq, hrun, hbefore, hrest⟩

/-- The task can be started a second time while its program has not been compiled: it has succeeded
when the workspace is loaded, is running two callbacks later, and goes on to succeed. -/
theorem startable_before_compilation :
    let sys := projectTask (oneProgramEnvironment 0)
    let loaded : List (Action PromiseRef) := [.task .programTemplates, .callback .programTemplates]
    let supplied := loaded ++ [.callback .programTemplates, .callback .programTemplates]
    (sys.run newProjectTask loaded).map getState = some .succeeded
    ∧ (sys.run newProjectTask loaded).map (fun s => canStartTask (some s)) = some true
    ∧ (sys.run newProjectTask supplied).map getState = some .running
    ∧ (sys.run newProjectTask supplied).map (fun s => getState (sys.runFirst 60 s))
      = some .succeeded := by
  decide +kernel

end ExamGeneratorNg
