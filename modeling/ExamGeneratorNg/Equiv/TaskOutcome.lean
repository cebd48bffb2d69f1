import ExamGeneratorNg.Equiv.ExamGeneration
import ExamGeneratorNg.Equiv.TaskHistory

/-!
# How a project task ends

Every run of a `ProjectTask` ends (`run_ends`), and how it ends does not depend on the order in
which tasks end and callbacks are called: the task has failed exactly if one of the tasks of the
workspace fails (`getState_of_quiescent`), and the documents of a group are there exactly if every
program exits with status 0 for that group (`documentsGenerated_iff_of_quiescent`).
-/

namespace ExamGeneratorNg

open Promise Stateful

variable {env : Environment} {s s' : TaskState} {past : List (Event Callback Supplier)}

/-! ### The tasks that have ended -/

/-- The tasks that have ended, in their order. -/
def endedTasks (past : List (Event Callback Supplier)) : List Supplier :=
  past.filterMap fun event =>
    match event with
    | .ended supplier => some supplier
    | .called _ => none

@[simp] theorem endedTasks_called (past : List (Event Callback Supplier)) (callback : Callback) :
    endedTasks (past ++ [.called callback]) = endedTasks past := by
  unfold endedTasks
  rw [List.filterMap_append]
  exact List.append_nil _

@[simp] theorem endedTasks_ended (past : List (Event Callback Supplier)) (supplier : Supplier) :
    endedTasks (past ++ [.ended supplier]) = endedTasks past ++ [supplier] := by
  unfold endedTasks
  rw [List.filterMap_append]
  rfl

theorem mem_endedTasks {supplier : Supplier} :
    supplier ∈ endedTasks past ↔ .ended supplier ∈ past := by
  unfold endedTasks
  rw [List.mem_filterMap]
  constructor
  · rintro ⟨⟨⟩ | supplier', hmem, heq⟩
    · cases heq
    · cases heq
      exact hmem
  · intro h
    exact ⟨_, h, rfl⟩

/-- Calling a callback leaves a promise alone that it is not to settle. -/
theorem outcome_call {callback : Callback} {ref : PromiseRef}
    (hentries : ∀ group, ref ≠ .entries group) (htarget : callback.target ≠ some ref) :
    (call callback s).outcome ref = s.outcome ref := by
  rcases call_cases callback s with ⟨ref', -, hcall | hcall⟩ | ⟨ref', -, hcall | ⟨e, hcall⟩⟩
      | ⟨target, s', -, htarget', hadds, hcall | ⟨r, hcall⟩⟩ <;> rw [hcall]
  · rfl
  · rfl
  · exact hadds.outcome ref hentries
  · rw [s'.settle_outcome_of_ne, hadds.outcome ref hentries]
    rintro rfl
    exact htarget htarget'

theorem outcome_call_promise (callback : Callback) (supplier : Supplier) :
    (call callback s).outcome supplier.promise = s.outcome supplier.promise := by
  apply outcome_call
  · intro group h
    cases supplier <;> cases h
  · intro h
    cases callback <;> cases supplier <;> simp [Callback.target, Supplier.promise] at h

/-- What is known of the tasks that have ended. -/
structure Account (env : Environment) (past : List (Event Callback Supplier)) (s : TaskState) :
    Prop where
  effects : s.world.effects
    = (endedTasks past).flatMap fun supplier => (runSupplier env supplier).effects
  due : ∀ supplier ∈ endedTasks past, Due env supplier
  outcome : ∀ supplier ∈ endedTasks past,
    s.outcome supplier.promise = some (runSupplier env supplier).result
  ended : ∀ supplier : Supplier, (s.outcome supplier.promise).isSome →
    ∃ supplier' ∈ endedTasks past, supplier'.promise = supplier.promise
  called : ∀ callback, .called callback ∈ past → (s.outcome callback.source).isSome

theorem account_newProjectTask : Account env [] newProjectTask where
  effects := rfl
  due := nofun
  outcome := nofun
  ended := nofun
  called := nofun

theorem isSome_kept {ref : PromiseRef}
    (hkept : ∀ ref r, s.outcome ref = some r → s'.outcome ref = some r)
    (h : (s.outcome ref).isSome) : (s'.outcome ref).isSome := by
  obtain ⟨r, hr⟩ := Option.isSome_iff_exists.mp h
  rw [hkept ref r hr]
  rfl

theorem Account.call (h : Account env past s) (hinv : Inv env none s) {callback : Callback}
    {before after : List Callback} (hsource : (s.outcome callback.source).isSome) :
    Account env (past ++ [.called callback])
      (ExamGeneratorNg.call callback { s with callbacks := before ++ after }) := by
  have hkept := (call_kept (s := { s with callbacks := before ++ after }) callback).1
  constructor
  case effects =>
    rw [endedTasks_called, (spawned_call hinv).view]
    exact h.effects
  case due => simpa using h.due
  case outcome =>
    intro supplier hended
    rw [endedTasks_called] at hended
    exact hkept _ _ (h.outcome supplier hended)
  case ended =>
    intro supplier hsettled
    rw [outcome_call_promise] at hsettled
    simpa using h.ended supplier hsettled
  case called =>
    intro callback' hcalled
    rcases List.mem_append.mp hcalled with hold | hnew
    · exact isSome_kept hkept (h.called callback' hold)
    · rw [List.mem_singleton, Event.called.injEq] at hnew
      exact isSome_kept hkept (hnew ▸ hsource)

theorem Account.finish (h : Account env past s) (hinv : Inv env none s)
    (hpast : (projectTask env).History newProjectTask past s) {supplier : Supplier}
    {before after : List Supplier} (htasks : s.tasks = before ++ supplier :: after) :
    Account env (past ++ [.ended supplier])
      (ExamGeneratorNg.finish env supplier { s with tasks := before ++ after }) := by
  have hmem : supplier ∈ s.tasks := by
    rw [htasks]
    simp
  -- a task of the promise that has ended would have the same name
  have hpending : s.outcome supplier.promise = none := by
    by_contra hsettled
    obtain ⟨supplier', hended, hpromise⟩ :=
      h.ended supplier (Option.isSome_iff_ne_none.mpr hsettled)
    have hhappened : eventName (.ended supplier) ∈ past.map eventName :=
      List.mem_map.mpr ⟨_, mem_endedTasks.mp hended, by simp only [eventName, hpromise]⟩
    exact Multiset.disjoint_left.mp (Multiset.nodup_add.mp (nodup_of_history hpast).1).2.2
      hhappened (State.mem_pending_of_task hmem)
  have hkept : ∀ ref r, s.outcome ref = some r → (ExamGeneratorNg.finish env supplier
      { s with tasks := before ++ after }).outcome ref = some r :=
    fun _ _ hr => finish_kept supplier hr
  constructor
  case effects =>
    rw [endedTasks_ended, List.flatMap_append, ← h.effects]
    unfold ExamGeneratorNg.finish
    dsimp only
    rw [State.settle_world]
    simp [ContextState.addEffects]
  case due =>
    rw [endedTasks_ended]
    intro supplier' hended
    rcases List.mem_append.mp hended with hold | hnew
    · exact h.due supplier' hold
    · exact List.mem_singleton.mp hnew ▸ hinv.due supplier hmem
  case outcome =>
    rw [endedTasks_ended]
    intro supplier' hended
    rcases List.mem_append.mp hended with hold | hnew
    · exact hkept _ _ (h.outcome supplier' hold)
    · obtain rfl := List.mem_singleton.mp hnew
      have hsettle := State.settle_of_none (ContextState.addEffects
        { s with tasks := before ++ after } (runSupplier env supplier').effects)
        (r := (runSupplier env supplier').result) hpending
      unfold ExamGeneratorNg.finish
      dsimp only
      rw [hsettle]
      exact Function.update_self _ _ _
  case ended =>
    rw [endedTasks_ended]
    intro supplier' hsettled
    by_cases hpromise : supplier.promise = supplier'.promise
    · exact ⟨supplier, by simp, hpromise⟩
    · unfold ExamGeneratorNg.finish at hsettled
      dsimp only at hsettled
      rw [State.settle_outcome_of_ne _ (Ne.symm hpromise)] at hsettled
      obtain ⟨supplier'', hended, heq⟩ := h.ended supplier' hsettled
      exact ⟨supplier'', List.mem_append_left _ hended, heq⟩
  case called =>
    intro callback hcalled
    rcases List.mem_append.mp hcalled with hold | hnew
    · exact isSome_kept hkept (h.called callback hold)
    · cases List.mem_singleton.mp hnew

/-- **Every history has its account.** -/
theorem account_of_history (h : (projectTask env).History newProjectTask past s) :
    Account env past s := by
  induction h with
  | start => exact account_newProjectTask
  | call hpast hcallbacks hsource ih => exact ih.call (inv_of_history hpast) hsource
  | finish hpast htasks ih => exact ih.finish (inv_of_history hpast) hpast htasks

/-! ### When nothing can happen any more -/

/-- Every callback waits for a promise on its way, so none is left at the end. -/
theorem Inv.callbacks_eq_nil (h : Inv env none s) (hquiescent : (projectTask env).Quiescent s) :
    s.callbacks = [] := by
  rw [List.eq_nil_iff_forall_not_mem]
  intro callback hcallback
  have hsettled := h.settled hquiescent (h.waiting callback hcallback)
  rw [show s.outcome callback.source = none from hquiescent.2 callback hcallback] at hsettled
  cases hsettled

theorem pending_of_quiescent (h : Inv env none s) (hquiescent : (projectTask env).Quiescent s) :
    s.pending eventName = 0 := by
  unfold State.pending
  rw [h.callbacks_eq_nil hquiescent, hquiescent.1]
  rfl

/-- The tasks that are counted are those that `supplyAsync` has supplied. -/
theorem not_dependsOnOutputs_of_workDone (h : (projectTask env).History newProjectTask past s)
    {ref : PromiseRef} (hcallback : .workDone ref ∈ s.callbacks) : ¬ DependsOnOutputs ref := by
  have hpending := lineage_projectTask.forall_pending (fun _ _ h => inv_of_history h)
    (P := fun n => ∀ ref, n = .workDone ref → ¬ DependsOnOutputs ref) ?_ ?_ h
  · exact hpending _ (State.mem_pending_of_callback hcallback) ref rfl
  · rintro n hn ref rfl
    rw [pending_newProjectTask] at hn
    simp only [Multiset.mem_coe, List.mem_cons, List.not_mem_nil, or_false, reduceCtorEq,
      EventName.workDone.injEq] at hn
    subst hn
    exact id
  · rintro n child hchild ref rfl
    have hparent := parent_of_mem_children hchild
    cases ref <;> first | exact id | cases hparent

/-- As long as no task has failed, every task that has been supplied is counted in `workDone` or
has still to be. -/
def Tallied (s : TaskState) : Prop :=
  s.world.promiseContext.workDone + uncounted s = s.world.promiseContext.workTotal
    ∨ ∃ ref e, ¬ DependsOnOutputs ref ∧ s.outcome ref = some (.error e)

theorem Tallied.of_kept (h : Tallied s)
    (hkept : ∀ ref r, s.outcome ref = some r → s'.outcome ref = some r)
    (hcount : s.world.promiseContext.workDone + uncounted s = s.world.promiseContext.workTotal →
      s'.world.promiseContext.workDone + uncounted s' = s'.world.promiseContext.workTotal) :
    Tallied s' := by
  rcases h with h | ⟨ref, e, href, he⟩
  · exact .inl (hcount h)
  · exact .inr ⟨ref, e, href, hkept ref _ he⟩

/-- A callback that does not count a task leaves as many uncounted as it supplies. -/
theorem uncounted_call {callback : Callback} (h : callback.isWorkDone = false) (s : TaskState) :
    (call callback s).world.promiseContext.workDone = s.world.promiseContext.workDone
    ∧ uncounted (call callback s) + s.world.promiseContext.workTotal
      = uncounted s + (call callback s).world.promiseContext.workTotal := by
  rcases call_cases callback s with ⟨ref, rfl, -⟩ | ⟨ref, -, hcall | ⟨e, hcall⟩⟩
      | ⟨target, s', -, -, hadds, hcall | ⟨r, hcall⟩⟩
  · cases h
  · rw [hcall]
    exact ⟨rfl, rfl⟩
  · rw [hcall]
    exact ⟨rfl, rfl⟩
  · rw [hcall]
    exact ⟨hadds.workDone, hadds.uncounted⟩
  · rw [hcall, State.settle_world]
    refine ⟨hadds.workDone, ?_⟩
    have huncounted := hadds.uncounted
    unfold uncounted at huncounted ⊢
    rwa [State.settle_callbacks]

theorem Tallied.call (h : Tallied s) (hpast : (projectTask env).History newProjectTask past s)
    {callback : Callback} {before after : List Callback}
    (hcallbacks : s.callbacks = before ++ callback :: after)
    (hsource : (s.outcome callback.source).isSome) :
    Tallied (ExamGeneratorNg.call callback { s with callbacks := before ++ after }) := by
  have hmem : callback ∈ s.callbacks := by
    rw [hcallbacks]
    simp
  have htake := uncounted_take hcallbacks
  have hkept := (call_kept (s := { s with callbacks := before ++ after }) callback).1
  by_cases hworkDone : callback.isWorkDone = false
  · refine h.of_kept hkept fun hcount => ?_
    obtain ⟨hdone, huncounted⟩ := uncounted_call hworkDone { s with callbacks := before ++ after }
    rw [hworkDone] at htake
    simp only [Bool.false_eq_true, if_false] at htake
    dsimp only at huncounted hdone
    omega
  · -- the task that the callback is about has ended well, or it has failed
    cases callback with
    | workDone ref =>
      obtain ⟨r, hr⟩ := Option.isSome_iff_exists.mp hsource
      cases r with
      | error e => exact .inr ⟨ref, e, not_dependsOnOutputs_of_workDone hpast hmem, hkept _ _ hr⟩
      | ok value =>
        refine h.of_kept hkept fun hcount => ?_
        have hcall : ExamGeneratorNg.call (.workDone ref) { s with callbacks := before ++ after }
            = ContextState.mapContext { s with callbacks := before ++ after } fun context =>
              { context with workDone := context.workDone + 1 } := by
          show ContextState.callWorkDone ref { s with callbacks := before ++ after } = _
          unfold ContextState.callWorkDone
          dsimp only
          rw [show s.outcome ref = some (.ok value) from hr]
        rw [hcall]
        simp only [Callback.isWorkDone, if_true] at htake
        show s.world.promiseContext.workDone + 1
          + uncounted { s with callbacks := before ++ after } = s.world.promiseContext.workTotal
        omega
    | _ => exact absurd rfl hworkDone

theorem tallied_of_history (h : (projectTask env).History newProjectTask past s) : Tallied s := by
  induction h with
  | start => exact .inl rfl
  | call hpast hcallbacks hsource ih => exact ih.call hpast hcallbacks hsource
  | finish hpast htasks ih =>
    refine ih.of_kept (fun _ _ hr => finish_kept _ hr) fun hcount => ?_
    show (finish env _ _).world.promiseContext.workDone + uncounted (finish env _ _)
      = (finish env _ _).world.promiseContext.workTotal
    rw [finish_promiseContext]
    unfold uncounted finish
    rw [State.settle_callbacks]
    exact hcount

/-- **A task does not stay `RUNNING`**: when nothing can happen any more, it has failed or
succeeded. -/
theorem getState_ne_running (hreachable : (projectTask env).Reachable newProjectTask s)
    (hquiescent : (projectTask env).Quiescent s) :
    getState s = if s.world.promiseContext.exception = none then .succeeded else .failed := by
  obtain ⟨past, hpast⟩ := hreachable.history
  have hinv := inv_of_history hpast
  rw [getState_eq]
  by_cases hexception : s.world.promiseContext.exception = none
  · have hone := (reachable_counts hreachable).one_le
    rw [if_pos hexception, if_pos hexception, if_pos]
    rcases tallied_of_history hpast with hcount | ⟨ref, e, href, he⟩
    · have hzero : uncounted s = 0 := by
        unfold uncounted
        rw [hinv.callbacks_eq_nil hquiescent]
        rfl
      omega
    · exact absurd he (hinv.not_rejected hquiescent hexception (fun h => absurd h href) e)
  · rw [if_neg hexception, if_neg hexception]

/-! ### Why promises are rejected -/

theorem run_supplyAsync (supplier : Supplier) (s : TaskState) :
    (supplyAsync supplier).run.run s = if s.world.promiseContext.exception = none
      then (.ok (), supply supplier s) else (.error .illegalStateException, s) := by
  have hget : (get : UiCode TaskState).run.run s = (.ok s, s) := rfl
  unfold supplyAsync ContextState.supplyAsync
  rw [run_bind, hget]
  dsimp only
  rw [run_bind]
  unfold checkState PromiseContext.getException
  cases s.world.promiseContext.exception with
  | none => rfl
  | some e => rfl

/-- Why a promise is rejected that depends on the outputs of a group, and where the output of a
program comes from. -/
structure Caused (env : Environment) (s : TaskState) : Prop where
  processOutputs : ∀ group e, s.outcome (.processOutputs group) = some (.error e) →
    (∃ programId, IsProcessOutput env programId group none)
      ∨ ∃ e', s.outcome (.entries group) = some (.error e')
  documentsGenerated : ∀ group e, s.outcome (.documentsGenerated group) = some (.error e) →
    (∃ e', s.outcome (.processOutputs group) = some (.error e'))
      ∨ (∃ e', s.outcome (.documents group) = some (.error e'))
      ∨ s.world.promiseContext.exception.isSome
  processOutput : ∀ programId group value,
    s.outcome (.processOutput programId group) = some (.ok value) →
      (s.outcome (.runOutput programId group)).isSome

/-- The causes stay known. -/
theorem Caused.of_kept (h : Caused env s)
    (hkept : ∀ ref r, s.outcome ref = some r → s'.outcome ref = some r)
    (hexception : s.world.promiseContext.exception.isSome →
      s'.world.promiseContext.exception.isSome)
    (hprocessOutputs : ∀ group e, s'.outcome (.processOutputs group) = some (.error e) →
      s.outcome (.processOutputs group) = some (.error e)
        ∨ (∃ programId, IsProcessOutput env programId group none)
        ∨ ∃ e', s.outcome (.entries group) = some (.error e'))
    (hdocumentsGenerated : ∀ group e, s'.outcome (.documentsGenerated group) = some (.error e) →
      s.outcome (.documentsGenerated group) = some (.error e)
        ∨ (∃ e', s.outcome (.processOutputs group) = some (.error e'))
        ∨ (∃ e', s.outcome (.documents group) = some (.error e'))
        ∨ s.world.promiseContext.exception.isSome)
    (hprocessOutput : ∀ programId group value,
      s'.outcome (.processOutput programId group) = some (.ok value) →
        s.outcome (.processOutput programId group) = some (.ok value)
          ∨ (s.outcome (.runOutput programId group)).isSome) : Caused env s' where
  processOutputs group e he := by
    have hcause : (∃ programId, IsProcessOutput env programId group none)
        ∨ ∃ e', s.outcome (.entries group) = some (.error e') := by
      rcases hprocessOutputs group e he with hold | hnew
      · exact h.processOutputs group e hold
      · exact hnew
    rcases hcause with hnull | ⟨e', he'⟩
    · exact .inl hnull
    · exact .inr ⟨e', hkept _ _ he'⟩
  documentsGenerated group e he := by
    have hcause : (∃ e', s.outcome (.processOutputs group) = some (.error e'))
        ∨ (∃ e', s.outcome (.documents group) = some (.error e'))
        ∨ s.world.promiseContext.exception.isSome := by
      rcases hdocumentsGenerated group e he with hold | hnew
      · exact h.documentsGenerated group e hold
      · exact hnew
    rcases hcause with ⟨e', he'⟩ | ⟨e', he'⟩ | hfailed
    · exact .inl ⟨e', hkept _ _ he'⟩
    · exact .inr (.inl ⟨e', hkept _ _ he'⟩)
    · exact .inr (.inr (hexception hfailed))
  processOutput programId group value hvalue := by
    rcases hprocessOutput programId group value hvalue with hold | hnew
    · exact isSome_kept hkept (h.processOutput programId group value hold)
    · exact isSome_kept hkept hnew

/-- What is left of a rejection when a callback is called that does not settle the promise, or
that has. -/
theorem rejected_call {callback : Callback} {ref : PromiseRef} {r : Except JavaException ref.Value}
    (hentries : ∀ group, ref ≠ .entries group) (h : (call callback s).outcome ref = some r)
    (hnone : s.outcome ref ≠ some r) : callback.target = some ref := by
  by_contra htarget
  rw [outcome_call hentries htarget] at h
  exact hnone h

/-- Supplying a task and registering a callback settles nothing, and throws only if an exception
has been kept. -/
theorem run_follow {supplier : Supplier} {follow : Callback} {target : PromiseRef} (s : TaskState) :
    (do
      supplyAsync supplier
      register follow
      pure none : UiCode (Option target.Value)).run.run s
    = if s.world.promiseContext.exception = none
      then (.ok none, (supply supplier s).register follow)
      else (.error .illegalStateException, s) := by
  rw [run_bind, run_supplyAsync]
  by_cases hexception : s.world.promiseContext.exception = none
  · rw [if_pos hexception, if_pos hexception]
    rfl
  · rw [if_neg hexception, if_neg hexception]

theorem Caused.call (h : Caused env s) (hinv : Inv env none s) {callback : Callback}
    {before after : List Callback} (hsource : (s.outcome callback.source).isSome) :
    Caused env (ExamGeneratorNg.call callback { s with callbacks := before ++ after }) := by
  obtain ⟨hkept, hexception⟩ :=
    call_kept (s := { s with callbacks := before ++ after }) callback
  refine h.of_kept hkept hexception ?_ ?_ ?_
  · intro group e he
    by_cases hold : s.outcome (.processOutputs group) = some (.error e)
    · exact .inl hold
    · have htarget := rejected_call (fun _ h => by cases h) he hold
      cases callback <;> cases htarget
      -- `Collectors.toMap` has thrown, or had nothing to work on
      rcases callThen_outcome he with hold' | ⟨e', he', -⟩ | ⟨entries, hentries, hbody⟩
      · exact .inl hold'
      · exact .inr (.inr ⟨e', he'⟩)
      · have hrun : ∀ t : TaskState, (some <$> (liftExcept (entriesToMap entries) :
            UiCode (JMap ProgramId ProcessOutput))).run.run t
              = ((entriesToMap entries).map some, t) := by
          intro t
          cases entriesToMap entries <;> rfl
        rw [hrun] at hbody
        rcases hbody with hold' | ⟨e', hthrown, -⟩ | ⟨w, -, hw⟩
        · exact .inl hold'
        · cases hmap : entriesToMap entries with
          | ok processOutputs =>
            rw [hmap] at hthrown
            cases hthrown
          | error e'' =>
            exact .inr (.inl (exists_null_of_entriesToMap (hinv.resolved _ _ hentries) hmap))
        · cases hw
  · intro group e he
    by_cases hold : s.outcome (.documentsGenerated group) = some (.error e)
    · exact .inl hold
    · have htarget := rejected_call (fun _ h => by cases h) he hold
      cases callback <;> cases htarget
      · rcases callThen_outcome he with hold' | ⟨e', he', -⟩ | ⟨processOutputs, -, hbody⟩
        · exact .inl hold'
        · exact .inr (.inl ⟨e', he'⟩)
        · rw [run_follow] at hbody
          by_cases hnone : s.world.promiseContext.exception = none
          · rw [if_pos hnone] at hbody
            rcases hbody with hold' | ⟨e', hthrown, -⟩ | ⟨w, hw, -⟩
            · exact .inl hold'
            · cases hthrown
            · cases hw
          · exact .inr (.inr (.inr (Option.isSome_iff_ne_none.mpr hnone)))
      · rcases callThen_outcome he with hold' | ⟨e', he', -⟩ |
          ⟨value, -, hold' | ⟨e', hthrown, -⟩ | ⟨w, -, hw⟩⟩
        · exact .inl hold'
        · exact .inr (.inr (.inl ⟨e', he'⟩))
        · exact .inl hold'
        · cases hthrown
        · cases hw
  · intro programId group value hvalue
    by_cases hold : s.outcome (.processOutput programId group) = some (.ok value)
    · exact .inl hold
    · have htarget := rejected_call (fun _ h => by cases h) hvalue hold
      cases callback <;> cases htarget
      · -- the promise is left to the callback of the run
        rcases callThen_outcome hvalue with hold' | ⟨e', -, he'⟩ | ⟨compilerOutput, -, hbody⟩
        · exact .inl hold'
        · cases he'
        · rw [run_follow] at hbody
          by_cases hnone : s.world.promiseContext.exception = none
          · rw [if_pos hnone] at hbody
            rcases hbody with hold' | ⟨e', hthrown, -⟩ | ⟨w, hw, -⟩
            · exact .inl hold'
            · cases hthrown
            · cases hw
          · rw [if_neg hnone] at hbody
            rcases hbody with hold' | ⟨e', -, he'⟩ | ⟨w, hw, -⟩
            · exact .inl hold'
            · cases he'
            · cases hw
      · exact .inr hsource

theorem Caused.finish (h : Caused env s) (supplier : Supplier) {before after : List Supplier} :
    Caused env (ExamGeneratorNg.finish env supplier { s with tasks := before ++ after }) := by
  have hother : ∀ ref, supplier.promise ≠ ref →
      (ExamGeneratorNg.finish env supplier { s with tasks := before ++ after }).outcome ref
        = s.outcome ref := by
    intro ref hne
    exact State.settle_outcome_of_ne _ (Ne.symm hne) _
  refine h.of_kept (fun _ _ hr => finish_kept supplier hr) ?_ ?_ ?_ ?_
  · rw [finish_promiseContext]
    exact id
  · intro group e he
    rw [hother _ (by cases supplier <;> nofun)] at he
    exact .inl he
  · intro group e he
    rw [hother _ (by cases supplier <;> nofun)] at he
    exact .inl he
  · intro programId group value hvalue
    rw [hother _ (by cases supplier <;> nofun)] at hvalue
    exact .inl hvalue

theorem caused_of_history (h : (projectTask env).History newProjectTask past s) :
    Caused env s := by
  induction h with
  | start => exact ⟨nofun, nofun, nofun⟩
  | call hpast hcallbacks hsource ih => exact ih.call (inv_of_history hpast) hsource
  | finish hpast htasks ih => exact ih.finish _

/-! ### What every complete run without a failure does -/

/-- Nothing can happen any more, and no exception has been kept. -/
structure Complete (env : Environment) (past : List (Event Callback Supplier)) (s : TaskState) :
    Prop where
  history : (projectTask env).History newProjectTask past s
  quiescent : (projectTask env).Quiescent s
  exception : s.world.promiseContext.exception = none

theorem Complete.inv (h : Complete env past s) : Inv env none s := inv_of_history h.history

theorem Complete.account (h : Complete env past s) : Account env past s :=
  account_of_history h.history

/-- A promise on its way that does not depend on outputs has been resolved. -/
theorem Complete.exists_value (h : Complete env past s) {ref : PromiseRef}
    (href : ¬ DependsOnOutputs ref) (hlive : Live env none s ref) :
    ∃ value, s.outcome ref = some (.ok value) :=
  h.inv.exists_value h.quiescent h.exception (fun hdepends => absurd hdepends href) hlive

theorem Complete.not_rejected (h : Complete env past s) {ref : PromiseRef}
    (href : ¬ DependsOnOutputs ref) (e : JavaException) : s.outcome ref ≠ some (.error e) :=
  h.inv.not_rejected h.quiescent h.exception (fun hdepends => absurd hdepends href) e

/-- Every task that has ended has ended well. -/
theorem Complete.result (h : Complete env past s) {supplier : Supplier}
    (hended : supplier ∈ endedTasks past) :
    ∃ value, (runSupplier env supplier).result = .ok value := by
  cases hresult : (runSupplier env supplier).result with
  | ok value => exact ⟨value, rfl⟩
  | error e =>
    have houtcome := h.account.outcome supplier hended
    rw [hresult] at houtcome
    refine absurd houtcome (h.not_rejected ?_ e)
    cases supplier <;> exact id

/-- What was pending at the start has happened. -/
theorem Complete.happened (h : Complete env past s) {n : EventName}
    (hn : n ∈ newProjectTask.pending eventName) :
    n ∈ past.map eventName := by
  rcases lineage_projectTask.mem_of_start (fun _ _ h => inv_of_history h) hn h.history with
    hpast | hpending
  · exact hpast
  · rw [pending_of_quiescent h.inv h.quiescent] at hpending
    exact absurd hpending (Multiset.notMem_zero _)

theorem Complete.load (h : Complete env past s) : .loadProgramTemplates ∈ endedTasks past := by
  have hname : .task .programTemplates ∈ past.map eventName := by
    apply h.happened
    rw [pending_newProjectTask]
    simp
  obtain ⟨event, hevent, heq⟩ := List.mem_map.mp hname
  cases event with
  | called callback => cases callback <;> cases heq
  | ended supplier =>
    cases supplier with
    | loadProgramTemplates => exact mem_endedTasks.mpr hevent
    | _ => cases heq

theorem Complete.exists_load (h : Complete env past s) :
    ∃ programTemplates, loadProgramTemplates env = .ok programTemplates :=
  h.result h.load

/-- The output of every program is known. -/
theorem Complete.processOutput (h : Complete env past s) {programId : ProgramId}
    {programTemplate : ProgramTemplate} {group : Group}
    (hloaded : Loaded env programId programTemplate) (hgroup : IsGroup group) :
    ∃ processOutput, s.outcome (.processOutput programId group) = some (.ok processOutput)
      ∧ IsProcessOutput env programId group processOutput := by
  obtain ⟨programPipelines, hpipelines⟩ :=
    h.exists_value id (h.inv.started .programPipelines trivial)
  have hlive := (h.inv.resolved _ _ hpipelines).2 programId programTemplate group hloaded hgroup
  obtain ⟨processOutput, hvalue⟩ := h.exists_value id hlive
  exact ⟨processOutput, hvalue, h.inv.resolved _ _ hvalue⟩

/-! ### The exams of a group -/

/-- Every program of the workspace that can be run exits with status 0 for the group. -/
def GroupExitsWithZero (env : Environment) (group : Group) : Prop :=
  ∀ programId compilerOutput program processOutput,
    IsCompilerOutput env programId group compilerOutput →
    compilerOutput.program = some program → program.execute = .ok processOutput →
    processOutput.status = 0

theorem groupExitsWithZero_iff {group : Group} :
    GroupExitsWithZero env group ↔ ∀ programId, ¬ IsProcessOutput env programId group none := by
  constructor
  · rintro h programId ⟨compilerOutput, hcompiler, hrun⟩
    obtain ⟨program, processOutput, hprogram, hexecute, hnone⟩ := runProgram_ok_iff.mp hrun
    rw [if_pos (h _ _ _ _ hcompiler hprogram hexecute)] at hnone
    cases hnone
  · intro h programId compilerOutput program processOutput hcompiler hprogram hexecute
    by_contra hstatus
    refine h programId ⟨compilerOutput, hcompiler, ?_⟩
    exact runProgram_ok_iff.mpr ⟨program, processOutput, hprogram, hexecute, by rw [if_neg hstatus]⟩

/-- A group for which no output is `null`. -/
theorem IsProcessOutputs.groupExitsWithZero {group : Group}
    {processOutputs : JMap ProgramId ProcessOutput}
    (h : IsProcessOutputs env group processOutputs) : GroupExitsWithZero env group := by
  rw [groupExitsWithZero_iff]
  intro programId hnull
  obtain ⟨programTemplate, hloaded⟩ := hnull.loaded
  obtain ⟨processOutput, hlookup⟩ := h.2 programId programTemplate hloaded
  have heq := hnull.unique ((h.1 programId processOutput).mp hlookup)
  cases heq

/-- In a complete run without a failure, the documents of a group are generated exactly if every
program exits with status 0 for the group. -/
theorem Complete.generated_iff (h : Complete env past s) {group : Group}
    (hgroup : IsGroup group) : DocumentsGenerated s group ↔ GroupExitsWithZero env group := by
  constructor
  · intro hdocuments
    obtain ⟨processOutputs, hprocess⟩ := h.inv.isProcessOutputs hdocuments
    exact hprocess.groupExitsWithZero
  · intro hexits
    obtain ⟨examPipeline, hexam⟩ := h.exists_value id (h.inv.started (.examPipeline group) hgroup)
    obtain ⟨r, hr⟩ :=
      Option.isSome_iff_exists.mp (h.inv.settled h.quiescent (h.inv.resolved _ _ hexam))
    cases r with
    | ok value => exact hr
    | error e =>
      have hcaused := caused_of_history h.history
      rcases hcaused.documentsGenerated group e hr with ⟨e', he'⟩ | ⟨e', he'⟩ | hfailed
      · rcases hcaused.processOutputs group e' he' with ⟨programId, hnull⟩ | ⟨e'', he''⟩
        · exact absurd hnull (groupExitsWithZero_iff.mp hexits programId)
        · exact absurd he'' (h.not_rejected id _)
      · exact absurd he' (h.not_rejected id _)
      · rw [h.exception] at hfailed
        cases hfailed

/-! ### How a task ends -/

/-- The exams of a group are made from the same programs and outputs, whichever maps hold them. -/
theorem generateExamVariants_ok_congr {group : Group}
    {programPipelineMap programPipelineMap' : JMap ProgramId ProgramPipeline}
    {processOutputs processOutputs' : JMap ProgramId ProcessOutput}
    (hdue : Due env (.generateExamVariants group programPipelineMap processOutputs))
    (hdue' : Due env (.generateExamVariants group programPipelineMap' processOutputs'))
    (hok : (runSupplier env
      (.generateExamVariants group programPipelineMap' processOutputs')).result = .ok ()) :
    (runSupplier env
      (.generateExamVariants group programPipelineMap processOutputs)).result = .ok () := by
  obtain ⟨-, hpipelines, hprocess⟩ := hdue
  obtain ⟨-, hpipelines', hprocess'⟩ := hdue'
  obtain ⟨evaluated', hevaluated', hok⟩ := (Effectful.bind_ok_iff _ _ _).mp hok
  obtain ⟨evaluated, hevaluated⟩ := evaluatedProgramTemplateMap_ok hpipelines hprocess
  refine (Effectful.bind_ok_iff _ _ _).mpr ⟨evaluated, hevaluated, ?_⟩
  refine generateExamVariantsForGroup_ok_congr (fun programId => ?_) hok
  exact (isEvaluated_evaluatedProgramTemplateMap hpipelines' hprocess' hevaluated').lookup_eq
    (isEvaluated_evaluatedProgramTemplateMap hpipelines hprocess hevaluated) programId

/-- Where no exception has been kept at the end, no task of the workspace fails: each of them has
ended in this run, with another outcome. -/
theorem Complete.not_taskFails (h : Complete env past s) : ¬ TaskFails env := by
  rintro ⟨supplier, e, hdue, he⟩
  cases supplier with
  | loadProgramTemplates =>
    obtain ⟨programTemplates, hload⟩ := h.exists_load
    change loadProgramTemplates env = .error e at he
    rw [hload] at he
    cases he
  | compileProgramTemplate programId programTemplate group =>
    obtain ⟨hloaded, hgroup⟩ := hdue
    obtain ⟨_, _, _, ⟨programTemplate', hloaded', hcompile⟩, _⟩ := h.processOutput hloaded hgroup
    rw [hloaded'.unique hloaded] at hcompile
    change (compileProgramTemplate env programId programTemplate group).result = .error e at he
    rw [he] at hcompile
    cases hcompile
  | runProgram programId compilerOutput group =>
    obtain ⟨hcompiler, hgroup⟩ := hdue
    obtain ⟨programTemplate, hloaded, -⟩ := id hcompiler
    obtain ⟨_, _, compilerOutput', hcompiler', hrun⟩ := h.processOutput hloaded hgroup
    rw [hcompiler'.unique hcompiler] at hrun
    change (runProgram programId compilerOutput group).result = .error e at he
    rw [he] at hrun
    cases hrun
  | generateExamVariants group programPipelineMap processOutputs =>
    have hgroup : IsGroup group := hdue.1
    have hexits : GroupExitsWithZero env group := hdue.2.2.groupExitsWithZero
    have hdocuments := (h.generated_iff hgroup).mpr hexits
    have hoks : s.outcome (.documents group) = some (.ok ()) := h.inv.resolved _ _ hdocuments
    obtain ⟨supplier', hended, hpromise⟩ := h.account.ended
      (.generateExamVariants group programPipelineMap processOutputs) (by
        show (s.outcome (.documents group)).isSome
        rw [hoks]
        rfl)
    cases supplier' with
    | generateExamVariants group' programPipelineMap' processOutputs' =>
      obtain rfl : group' = group := by injection hpromise
      obtain ⟨⟨⟩, hok⟩ := h.result hended
      have hok' := generateExamVariants_ok_congr hdue (h.account.due _ hended) hok
      rw [he] at hok'
      cases hok'
    | _ => cases hpromise

/-- **How a task ends does not depend on the order in which things happen.**  When nothing can
happen any more, the task has failed if one of the tasks of the workspace fails, and has succeeded
otherwise. -/
theorem getState_of_quiescent (hreachable : (projectTask env).Reachable newProjectTask s)
    (hquiescent : (projectTask env).Quiescent s) :
    (getState s = .failed ↔ TaskFails env) ∧ (getState s = .succeeded ↔ ¬ TaskFails env) := by
  obtain ⟨past, hpast⟩ := hreachable.history
  rw [getState_ne_running hreachable hquiescent]
  by_cases hexception : s.world.promiseContext.exception = none
  · have hnot := Complete.not_taskFails ⟨hpast, hquiescent, hexception⟩
    simp [hexception, hnot]
  · have hfails := ((inv_of_history hpast).failed (Option.isSome_iff_ne_none.mpr hexception)).1
    simp [hexception, hfails]

theorem quiescent_oneProgramRun :
    (projectTask (oneProgramEnvironment 0)).Quiescent (oneProgramRun 0) := by
  decide +kernel

theorem getState_oneProgramRun : getState (oneProgramRun 0) = .succeeded := by decide +kernel

/-- A program that exits with status 0. -/
theorem getState_of_quiescent_example : ¬ TaskFails (oneProgramEnvironment 0) :=
  (getState_of_quiescent (reachable_oneProgramRun 0) quiescent_oneProgramRun).2.mp
    getState_oneProgramRun

/-- **Every run of a task ends, and then it is not `RUNNING`**: a run over a workspace with `n`
programs has at most `20 n + 18` actions, and can be continued until nothing can happen any
more. -/
theorem run_ends {actions : List (Action PromiseRef)}
    (hrun : (projectTask env).run newProjectTask actions = some s) :
    actions.length ≤ 20 * (loadedIds env).length + 18
    ∧ ∃ actions' s', (projectTask env).run s actions' = some s' ∧ (projectTask env).Quiescent s'
      ∧ getState s' ≠ .running := by
  have hbound : ∀ actions' s', (projectTask env).run s actions' = some s' →
      actions'.length ≤ 20 * (loadedIds env).length + 18 := by
    intro actions' s' hrun'
    have hle : (actions ++ actions').length ≤ _ := length_le_of_run (s := s') (by
      rw [System.run_append, hrun]
      exact hrun')
    rw [List.length_append] at hle
    omega
  obtain ⟨actions', s', hrun', hquiescent⟩ := System.exists_quiescent hbound
  have hreachable : (projectTask env).Reachable newProjectTask s' :=
    System.Reachable.trans ⟨actions, hrun⟩ ⟨actions', hrun'⟩
  refine ⟨length_le_of_run hrun, actions', s', hrun', hquiescent, ?_⟩
  rw [getState_ne_running hreachable hquiescent]
  split <;> nofun

/-- The task that loads the workspace has ended. -/
theorem run_ends_example :
    ∃ s, (projectTask (oneProgramEnvironment 0)).run newProjectTask [.task .programTemplates]
        = some s
      ∧ ∃ actions s', (projectTask (oneProgramEnvironment 0)).run s actions = some s'
        ∧ (projectTask (oneProgramEnvironment 0)).Quiescent s' ∧ getState s' ≠ .running :=
  ⟨_, rfl, (run_ends (show (projectTask (oneProgramEnvironment 0)).run newProjectTask
    [.task .programTemplates] = some _ from rfl)).2⟩

/-- **The documents of a group are there exactly if every program exits with status 0 for that
group**, when a task has succeeded and nothing can happen any more: a program that fails for one
group does not keep the other group from its documents. -/
theorem documentsGenerated_iff_of_quiescent
    (hreachable : (projectTask env).Reachable newProjectTask s)
    (hquiescent : (projectTask env).Quiescent s) (hstate : getState s = .succeeded)
    {group : Group} (hgroup : IsGroup group) :
    DocumentsGenerated s group ↔ GroupExitsWithZero env group := by
  obtain ⟨past, hpast⟩ := hreachable.history
  have hexception : s.world.promiseContext.exception = none := by
    by_contra hfailed
    rw [getState_eq, if_neg hfailed] at hstate
    cases hstate
  exact Complete.generated_iff ⟨hpast, hquiescent, hexception⟩ hgroup

/-- A program that exits with status 0. -/
theorem documentsGenerated_iff_of_quiescent_example :
    DocumentsGenerated (oneProgramRun 0) Group.A
      ↔ GroupExitsWithZero (oneProgramEnvironment 0) Group.A :=
  documentsGenerated_iff_of_quiescent (reachable_oneProgramRun 0) quiescent_oneProgramRun
    getState_oneProgramRun (.inl rfl)

end ExamGeneratorNg
