import ExamGeneratorNg.Transition.Basic
import ExamGeneratorNg.Promise.Lemmas
import ExamGeneratorNg.Ui.ProjectTask
import Mathlib.Algebra.BigOperators.Group.Finset.Basic

/-!
# The accounts of a `PromiseContext`

`promiseContext_accounts`: whoever calls `supplyAsync`, however often and whenever, and however
the tasks end, `workTotal` counts the tasks that were supplied and `workDone` those whose success
was seen; and nothing that happens after a failure was seen lets the failure be forgotten.

The runs are those of the most general client of a `PromiseContext`: a step is a call of
`supplyAsync`, the end of a task, or a callback that is called.
-/

namespace ExamGeneratorNg

open Promise Stateful

/-! ### The most general client -/

/-- The callbacks that `supplyAsync` registers on the promise of a task. -/
inductive ContextCallback (Ref : Type)
  | workDone (ref : Ref)
  | exception (ref : Ref)
deriving DecidableEq

/-- A `PromiseContext` in use. -/
structure ContextRun (Ref : Type) (Value : Ref → Type) where
  state : ContextState Ref Value (ContextCallback Ref) Ref
  /-- the promises that `supplyAsync` has returned -/
  supplied : Finset Ref

/-- What may happen next. -/
inductive ContextAction (Ref : Type) (Value : Ref → Type)
  /-- somebody calls `supplyAsync`, for a promise that is new -/
  | supply (ref : Ref)
  /-- a task ends -/
  | finish (ref : Ref) (result : Except JavaException (Value ref))
  /-- a callback of a promise that is settled is called -/
  | call (callback : ContextCallback Ref)

variable {Ref : Type} {Value : Ref → Type}

namespace ContextCallback

/-- The promise a callback is registered on. -/
def source : ContextCallback Ref → Ref
  | workDone ref => ref
  | exception ref => ref

/-- What a callback does. -/
def call : ContextCallback Ref → ContextState Ref Value (ContextCallback Ref) Ref →
    ContextState Ref Value (ContextCallback Ref) Ref
  | workDone ref => ContextState.callWorkDone ref
  | exception ref => ContextState.callException ref

/-- A callback changes nothing but the `PromiseContext`. -/
theorem call_eq_mapContext (callback : ContextCallback Ref)
    (state : ContextState Ref Value (ContextCallback Ref) Ref) :
    callback.call state = state ∨ ∃ f, callback.call state = ContextState.mapContext state f := by
  cases callback with
  | workDone ref => exact (ContextState.callWorkDone_cases state ref).imp_right fun h => ⟨_, h⟩
  | exception ref =>
    refine (ContextState.callException_cases state ref).imp_right ?_
    rintro ⟨e, h⟩
    exact ⟨_, h⟩

@[simp] theorem call_outcome (callback : ContextCallback Ref)
    (state : ContextState Ref Value (ContextCallback Ref) Ref) :
    (callback.call state).outcome = state.outcome := by
  rcases callback.call_eq_mapContext state with h | ⟨f, h⟩ <;> simp [h]

@[simp] theorem call_callbacks (callback : ContextCallback Ref)
    (state : ContextState Ref Value (ContextCallback Ref) Ref) :
    (callback.call state).callbacks = state.callbacks := by
  rcases callback.call_eq_mapContext state with h | ⟨f, h⟩ <;> simp [h]

@[simp] theorem call_tasks (callback : ContextCallback Ref)
    (state : ContextState Ref Value (ContextCallback Ref) Ref) :
    (callback.call state).tasks = state.tasks := by
  rcases callback.call_eq_mapContext state with h | ⟨f, h⟩ <;> simp [h]

end ContextCallback

namespace ContextRun

/-- A new `PromiseContext`. -/
def new : ContextRun Ref Value := ⟨⟨fun _ => none, [], [], ⟨⟨0, 0, none⟩, []⟩⟩, ∅⟩

/-- The `PromiseContext`. -/
def context (s : ContextRun Ref Value) : PromiseContext := s.state.world.promiseContext

/-- What `supplyAsync` returns, and the state behind it. -/
def supplyAsync (s : ContextRun Ref Value) (ref : Ref) :
    Except JavaException Unit × ContextState Ref Value (ContextCallback Ref) Ref :=
  (ContextState.supplyAsync id .workDone .exception ref).run.run s.state

variable {s s' : ContextRun Ref Value}

/-- `supplyAsync` is its check and `ContextState.supply`. -/
theorem supplyAsync_eq (s : ContextRun Ref Value) (ref : Ref) :
    s.supplyAsync ref = Id.run ((do
      liftExcept (checkState s.context.exception.isNone)
      modify (ContextState.supply id .workDone .exception ref) :
        Code (ContextState Ref Value (ContextCallback Ref) Ref) JavaException Unit).run.run
          s.state) :=
  rfl

theorem supplyAsync_of_none (h : s.context.exception = none) (ref : Ref) :
    s.supplyAsync ref = (.ok (), ContextState.supply id .workDone .exception ref s.state) := by
  rw [supplyAsync_eq, h]
  rfl

/-- After an exception was kept, `supplyAsync` throws, and changes nothing. -/
theorem supplyAsync_of_ne_none (h : s.context.exception ≠ none) (ref : Ref) :
    s.supplyAsync ref = (.error .illegalStateException, s.state) := by
  obtain ⟨e, he⟩ := Option.ne_none_iff_exists'.mp h
  rw [supplyAsync_eq, he]
  rfl

/-- The callbacks of a new promise are new. -/
theorem notMem_of_source {ref : Ref} (href : ref ∉ s.supplied) {callback : ContextCallback Ref}
    (hsource : callback.source ∈ s.supplied) : callback ∉ [.workDone ref, .exception ref] := by
  intro hmem
  rcases List.mem_pair.mp hmem with rfl | rfl
  · exact href hsource
  · exact href hsource

variable [DecidableEq Ref]

/-- Somebody calls `supplyAsync`. -/
def supply (s : ContextRun Ref Value) (ref : Ref) : ContextRun Ref Value :=
  match s.supplyAsync ref with
  | (.ok (), state) => ⟨state, insert ref s.supplied⟩
  | (.error _, state) => ⟨state, s.supplied⟩

/-- A task ends. -/
def finish (s : ContextRun Ref Value) (ref : Ref) (result : Except JavaException (Value ref)) :
    ContextRun Ref Value :=
  { s with state := { s.state with tasks := s.state.tasks.erase ref }.settle ref result }

/-- A callback is called. -/
def call (s : ContextRun Ref Value) (callback : ContextCallback Ref) : ContextRun Ref Value :=
  { s with
    state := callback.call { s.state with callbacks := s.state.callbacks.erase callback } }

end ContextRun

variable [DecidableEq Ref] {s s' : ContextRun Ref Value}

/-- The most general client of a `PromiseContext`. -/
def contextClient : Transition.System (ContextRun Ref Value) (ContextAction Ref Value) where
  next
    | .supply ref, s => if ref ∈ s.supplied then none else some (s.supply ref)
    | .finish ref result, s => if ref ∈ s.state.tasks then some (s.finish ref result) else none
    | .call callback, s =>
      if callback ∈ s.state.callbacks ∧ (s.state.outcome callback.source).isSome
      then some (s.call callback) else none

/-! ### What has become of a task -/

/-- What has become of a task. -/
inductive Completion
  /-- the task has not ended, or the callback for its end has not been called -/
  | waiting
  /-- the task has succeeded, and is counted in `workDone` -/
  | counted
  /-- the task has failed, and its exception was kept -/
  | recorded
deriving DecidableEq

namespace ContextRun

/-- What has become of the task of a promise. -/
def completion (s : ContextRun Ref Value) (ref : Ref) : Completion :=
  match s.state.outcome ref with
  | none => .waiting
  | some (.ok _) => if .workDone ref ∈ s.state.callbacks then .waiting else .counted
  | some (.error _) => if .exception ref ∈ s.state.callbacks then .waiting else .recorded

/-- How many tasks have come to that. -/
def tasksThat (s : ContextRun Ref Value) (completion : Completion) : ℕ :=
  (s.supplied.filter fun ref => s.completion ref = completion).card

theorem supply_of_none (h : s.context.exception = none) (ref : Ref) :
    s.supply ref
      = ⟨ContextState.supply id .workDone .exception ref s.state, insert ref s.supplied⟩ := by
  unfold supply
  rw [supplyAsync_of_none h]

theorem supply_of_ne_none (h : s.context.exception ≠ none) (ref : Ref) : s.supply ref = s := by
  unfold supply
  rw [supplyAsync_of_ne_none h]

theorem supply_supplied (h : s.context.exception = none) (ref : Ref) :
    (s.supply ref).supplied = insert ref s.supplied := by
  rw [supply_of_none h]

theorem supply_outcome (h : s.context.exception = none) (ref : Ref) :
    (s.supply ref).state.outcome = s.state.outcome := by
  simp [supply_of_none h]

theorem supply_callbacks (h : s.context.exception = none) (ref : Ref) :
    (s.supply ref).state.callbacks = s.state.callbacks ++ [.workDone ref, .exception ref] := by
  simp [supply_of_none h]

theorem supply_tasks (h : s.context.exception = none) (ref : Ref) :
    (s.supply ref).state.tasks = s.state.tasks ++ [ref] := by
  simp [supply_of_none h]

theorem supply_context (h : s.context.exception = none) (ref : Ref) :
    (s.supply ref).context = { s.context with workTotal := s.context.workTotal + 1 } := by
  rw [supply_of_none h]
  rfl

@[simp] theorem finish_callbacks (ref : Ref) (result : Except JavaException (Value ref)) :
    (s.finish ref result).state.callbacks = s.state.callbacks :=
  State.settle_callbacks _ _ _

@[simp] theorem finish_tasks (ref : Ref) (result : Except JavaException (Value ref)) :
    (s.finish ref result).state.tasks = s.state.tasks.erase ref :=
  State.settle_tasks _ _ _

@[simp] theorem finish_context (ref : Ref) (result : Except JavaException (Value ref)) :
    (s.finish ref result).context = s.context :=
  congrArg TaskWorld.promiseContext (State.settle_world _ _ _)

theorem finish_outcome_of_ne {ref ref' : Ref} (h : ref' ≠ ref)
    (result : Except JavaException (Value ref)) :
    (s.finish ref result).state.outcome ref' = s.state.outcome ref' :=
  State.settle_outcome_of_ne _ h result

theorem finish_outcome_of_none {ref : Ref} (h : s.state.outcome ref = none)
    (result : Except JavaException (Value ref)) :
    (s.finish ref result).state.outcome ref = some result := by
  have hsettle := State.settle_of_none { s.state with tasks := s.state.tasks.erase ref }
    (r := result) h
  exact (congrArg (fun state => State.outcome state ref) hsettle).trans (Function.update_self _ _ _)

@[simp] theorem call_outcome (callback : ContextCallback Ref) :
    (s.call callback).state.outcome = s.state.outcome :=
  callback.call_outcome _

@[simp] theorem call_callbacks (callback : ContextCallback Ref) :
    (s.call callback).state.callbacks = s.state.callbacks.erase callback :=
  callback.call_callbacks _

@[simp] theorem call_tasks (callback : ContextCallback Ref) :
    (s.call callback).state.tasks = s.state.tasks :=
  callback.call_tasks _

theorem call_workDone_context (ref : Ref) :
    (s.call (.workDone ref)).context
      = match s.state.outcome ref with
        | some (.ok _) => { s.context with workDone := s.context.workDone + 1 }
        | _ => s.context := by
  change TaskWorld.promiseContext (State.world (ContextState.callWorkDone ref _)) = _
  unfold ContextState.callWorkDone
  dsimp only
  rcases s.state.outcome ref with _ | _ | _ <;> rfl

theorem call_exception_context (ref : Ref) :
    (s.call (.exception ref)).context
      = match s.state.outcome ref with
        | some (.error e) => { s.context with exception := some e }
        | _ => s.context := by
  change TaskWorld.promiseContext (State.world (ContextState.callException ref _)) = _
  unfold ContextState.callException
  dsimp only
  rcases s.state.outcome ref with _ | _ | _ <;> rfl

theorem completion_of_none {ref : Ref} (h : s.state.outcome ref = none) :
    s.completion ref = .waiting := by
  unfold completion
  rw [h]

theorem completion_of_ok {ref : Ref} {value : Value ref}
    (h : s.state.outcome ref = some (.ok value)) :
    s.completion ref = if .workDone ref ∈ s.state.callbacks then .waiting else .counted := by
  unfold completion
  rw [h]

theorem completion_of_error {ref : Ref} {e : JavaException}
    (h : s.state.outcome ref = some (.error e)) :
    s.completion ref = if .exception ref ∈ s.state.callbacks then .waiting else .recorded := by
  unfold completion
  rw [h]

/-- What has become of a task depends on its promise and the callbacks that wait for it. -/
theorem completion_congr {ref : Ref} (houtcome : s'.state.outcome ref = s.state.outcome ref)
    (hcallbacks : ∀ callback : ContextCallback Ref, callback.source = ref →
      (callback ∈ s'.state.callbacks ↔ callback ∈ s.state.callbacks)) :
    s'.completion ref = s.completion ref := by
  unfold completion
  rw [houtcome]
  simp only [hcallbacks (.workDone ref) rfl, hcallbacks (.exception ref) rfl]

/-! ### Counting tasks -/

/-- What has become of the tasks is all that is counted. -/
theorem tasksThat_congr (hsupplied : s'.supplied = s.supplied)
    (h : ∀ ref ∈ s.supplied, s'.completion ref = s.completion ref) (completion : Completion) :
    s'.tasksThat completion = s.tasksThat completion := by
  unfold tasksThat
  rw [hsupplied]
  congr 1
  exact Finset.filter_congr fun ref href => by rw [h ref href]

/-- Every task that was supplied is counted once. -/
theorem card_supplied (s : ContextRun Ref Value) :
    s.supplied.card = s.tasksThat .counted + s.tasksThat .recorded + s.tasksThat .waiting := by
  have hcover : Set.MapsTo s.completion s.supplied
      (({.counted, .recorded, .waiting} : Finset Completion) : Set Completion) := by
    intro ref _
    cases s.completion ref <;> simp
  rw [Finset.card_eq_sum_card_fiberwise hcover]
  simp [tasksThat, Nat.add_assoc]

/-- A task that is new and waits changes no other count. -/
theorem tasksThat_of_supplied {ref : Ref} (hsupplied : s'.supplied = insert ref s.supplied)
    (hwaiting : s'.completion ref = .waiting)
    (hothers : ∀ ref ∈ s.supplied, s'.completion ref = s.completion ref) {completion : Completion}
    (hcompletion : completion ≠ .waiting) : s'.tasksThat completion = s.tasksThat completion := by
  unfold tasksThat
  rw [hsupplied, Finset.filter_insert, if_neg (by rw [hwaiting]; exact hcompletion.symm)]
  congr 1
  exact Finset.filter_congr fun ref' href' => by rw [hothers ref' href']

/-- A task that waits adds one to the count of what becomes of it. -/
theorem tasksThat_of_waiting {ref : Ref} (hsupplied : s'.supplied = s.supplied)
    (href : ref ∈ s.supplied) (hwaiting : s.completion ref = .waiting)
    (hothers : ∀ ref' ≠ ref, s'.completion ref' = s.completion ref') {completion : Completion}
    (hcompletion : completion ≠ .waiting) :
    s'.tasksThat completion
      = s.tasksThat completion + if s'.completion ref = completion then 1 else 0 := by
  unfold tasksThat
  rw [hsupplied]
  split_ifs with h
  · have hnotMem : ref ∉ s.supplied.filter fun ref => s.completion ref = completion := by
      simp [hwaiting, hcompletion.symm]
    rw [← Finset.card_insert_of_notMem hnotMem]
    congr 1
    ext ref'
    by_cases hne : ref' = ref
    · simp [hne, h, href]
    · simp [hne, hothers ref' hne]
  · rw [Nat.add_zero]
    congr 1
    refine Finset.filter_congr fun ref' _ => ?_
    by_cases hne : ref' = ref
    · simp [hne, h, hwaiting, hcompletion.symm]
    · rw [hothers ref' hne]

/-! ### The invariant -/

/-- What holds along a run of a `PromiseContext`. -/
structure Accounts (s : ContextRun Ref Value) : Prop where
  /-- callbacks are called once -/
  nodup : s.state.callbacks.Nodup
  /-- callbacks wait for promises of tasks -/
  callbacks : ∀ callback ∈ s.state.callbacks, callback.source ∈ s.supplied
  /-- tasks that run were supplied -/
  tasks : ∀ ref ∈ s.state.tasks, ref ∈ s.supplied
  /-- promises that are settled are promises of tasks -/
  settled : ∀ ref, (s.state.outcome ref).isSome → ref ∈ s.supplied
  /-- both callbacks wait for the end of a task -/
  pending : ∀ ref ∈ s.supplied, s.state.outcome ref = none →
    .workDone ref ∈ s.state.callbacks ∧ .exception ref ∈ s.state.callbacks
  /-- `workTotal` counts the tasks -/
  workTotal : s.context.workTotal = s.supplied.card
  /-- `workDone` counts those whose success was seen -/
  workDone : s.context.workDone = s.tasksThat .counted
  /-- an exception is kept once a failure was seen -/
  exception : s.context.exception ≠ none ↔ 0 < s.tasksThat .recorded

theorem accounts_new : (new : ContextRun Ref Value).Accounts where
  nodup := List.nodup_nil
  callbacks := nofun
  tasks := nofun
  settled _ h := by cases h
  pending _ h := by cases h
  workTotal := rfl
  workDone := rfl
  exception := ⟨fun h => absurd rfl h, nofun⟩

/-- A new promise is not settled. -/
theorem Accounts.outcome_of_notMem (h : s.Accounts) {ref : Ref} (href : ref ∉ s.supplied) :
    s.state.outcome ref = none :=
  Option.not_isSome_iff_eq_none.mp fun hsome => href (h.settled ref hsome)

/-- A new task waits, and nothing becomes of the others. -/
theorem Accounts.tasksThat_supply (h : s.Accounts) (hexception : s.context.exception = none)
    {ref : Ref} (href : ref ∉ s.supplied) (completion : Completion)
    (hcompletion : completion ≠ .waiting) :
    (s.supply ref).tasksThat completion = s.tasksThat completion := by
  have houtcome := supply_outcome hexception ref
  refine tasksThat_of_supplied (supply_supplied hexception ref) ?_ ?_ hcompletion
  · exact completion_of_none (by rw [houtcome, h.outcome_of_notMem href])
  · intro ref' href'
    refine completion_congr (by rw [houtcome]) fun callback hsource => ?_
    have hnew := notMem_of_source href (hsource ▸ href' : callback.source ∈ s.supplied)
    rw [supply_callbacks hexception, List.mem_append, or_iff_left hnew]

/-- **A call of `supplyAsync` keeps the accounts.** -/
theorem Accounts.supply (h : s.Accounts) {ref : Ref} (href : ref ∉ s.supplied) :
    (s.supply ref).Accounts := by
  by_cases hexception : s.context.exception = none
  · have hsupplied := supply_supplied hexception ref
    have houtcome := supply_outcome hexception ref
    have hcallbacks := supply_callbacks hexception ref
    have hcontext := supply_context hexception ref
    refine ⟨?_, ?_, ?_, ?_, ?_, ?_, ?_, ?_⟩
    · rw [hcallbacks]
      exact h.nodup.append (by simp) fun callback hmem =>
        notMem_of_source href (h.callbacks callback hmem)
    · rw [hcallbacks, hsupplied]
      intro callback hmem
      rcases List.mem_append.mp hmem with hold | hmem
      · exact Finset.mem_insert_of_mem (h.callbacks callback hold)
      · rcases List.mem_pair.mp hmem with rfl | rfl
        · exact Finset.mem_insert_self _ _
        · exact Finset.mem_insert_self _ _
    · rw [supply_tasks hexception, hsupplied]
      intro ref' href'
      rcases List.mem_append.mp href' with hold | hmem
      · exact Finset.mem_insert_of_mem (h.tasks ref' hold)
      · rw [List.mem_singleton.mp hmem]
        exact Finset.mem_insert_self _ _
    · rw [houtcome, hsupplied]
      exact fun ref' hsome => Finset.mem_insert_of_mem (h.settled ref' hsome)
    · rw [houtcome, hsupplied, hcallbacks]
      intro ref' href' hnone
      rcases Finset.mem_insert.mp href' with rfl | hold
      · simp
      · obtain ⟨hworkDone, hexception⟩ := h.pending ref' hold hnone
        exact ⟨List.mem_append_left _ hworkDone, List.mem_append_left _ hexception⟩
    · rw [hcontext, hsupplied, Finset.card_insert_of_notMem href, ← h.workTotal]
    · rw [hcontext, h.tasksThat_supply hexception href .counted nofun]
      exact h.workDone
    · rw [hcontext, h.tasksThat_supply hexception href .recorded nofun]
      exact h.exception
  · rw [supply_of_ne_none hexception]
    exact h

/-- A task that ends leaves its callbacks waiting. -/
theorem Accounts.completion_finish (h : s.Accounts) {ref : Ref} (href : ref ∈ s.supplied)
    (result : Except JavaException (Value ref)) (ref' : Ref) :
    (s.finish ref result).completion ref' = s.completion ref' := by
  have hcallbacks : (s.finish ref result).state.callbacks = s.state.callbacks :=
    finish_callbacks ref result
  by_cases hne : ref' = ref
  · subst hne
    cases hout : s.state.outcome ref' with
    | some r =>
      refine completion_congr ?_ fun _ _ => by rw [hcallbacks]
      rw [hout]
      exact State.settle_outcome_of_some _ hout
    | none =>
      obtain ⟨hworkDone, hexception⟩ := h.pending ref' href hout
      have hresult := finish_outcome_of_none hout result
      rw [completion_of_none hout]
      cases result with
      | ok value => rw [completion_of_ok hresult, hcallbacks, if_pos hworkDone]
      | error e => rw [completion_of_error hresult, hcallbacks, if_pos hexception]
  · exact completion_congr (finish_outcome_of_ne hne result) fun _ _ => by rw [hcallbacks]

/-- **The end of a task keeps the accounts.** -/
theorem Accounts.finish (h : s.Accounts) {ref : Ref} (href : ref ∈ s.state.tasks)
    (result : Except JavaException (Value ref)) : (s.finish ref result).Accounts := by
  have hsupplied : (s.finish ref result).supplied = s.supplied := rfl
  have hcounts := tasksThat_congr hsupplied fun ref' _ =>
    h.completion_finish (h.tasks ref href) result ref'
  have hkept : ∀ ref', (s.finish ref result).state.outcome ref' = none →
      s.state.outcome ref' = none := by
    intro ref' hnone
    by_contra hsome
    obtain ⟨r, hr⟩ := Option.ne_none_iff_exists'.mp hsome
    have hr' : (s.finish ref result).state.outcome ref' = some r :=
      State.settle_outcome_of_some _ hr
    rw [hnone] at hr'
    cases hr'
  refine ⟨?_, ?_, ?_, ?_, ?_, ?_, ?_, ?_⟩
  · rw [finish_callbacks]
    exact h.nodup
  · rw [finish_callbacks]
    exact h.callbacks
  · rw [finish_tasks]
    exact fun ref' href' => h.tasks ref' (List.mem_of_mem_erase href')
  · intro ref' hsome
    by_cases hne : ref' = ref
    · exact hne ▸ h.tasks ref href
    · rw [finish_outcome_of_ne hne] at hsome
      exact h.settled ref' hsome
  · rw [finish_callbacks]
    exact fun ref' href' hnone => h.pending ref' href' (hkept ref' hnone)
  · rw [finish_context]
    exact h.workTotal
  · rw [finish_context, hcounts]
    exact h.workDone
  · rw [finish_context, hcounts]
    exact h.exception

/-- What a callback does: it counts a success, keeps an exception, or has nothing to do. -/
theorem Accounts.call_cases (h : s.Accounts) {callback : ContextCallback Ref}
    (hcallback : callback ∈ s.state.callbacks)
    (hsource : (s.state.outcome callback.source).isSome) :
    ((s.call callback).context = { s.context with workDone := s.context.workDone + 1 } ∧
      s.completion callback.source = .waiting ∧
      (s.call callback).completion callback.source = .counted) ∨
    (∃ e, (s.call callback).context = { s.context with exception := some e } ∧
      s.completion callback.source = .waiting ∧
      (s.call callback).completion callback.source = .recorded) ∨
    (s.call callback).context = s.context ∧
      (s.call callback).completion callback.source = s.completion callback.source := by
  obtain ⟨r, hr⟩ := Option.isSome_iff_exists.mp hsource
  have hr' : (s.call callback).state.outcome callback.source = some r := by rw [call_outcome, hr]
  have herase : callback ∉ (s.call callback).state.callbacks := by
    rw [call_callbacks]
    exact h.nodup.not_mem_erase
  have hothers : ∀ callback', callback' ≠ callback →
      (callback' ∈ (s.call callback).state.callbacks ↔ callback' ∈ s.state.callbacks) := by
    intro callback' hne
    rw [call_callbacks, List.mem_erase_of_ne hne]
  cases callback with
  | workDone ref =>
    simp only [ContextCallback.source] at hr hr' ⊢
    rw [call_workDone_context, hr]
    cases r with
    | ok value =>
      rw [completion_of_ok hr, completion_of_ok hr', if_pos hcallback, if_neg herase]
      exact .inl ⟨rfl, rfl, rfl⟩
    | error e =>
      refine .inr (.inr ⟨rfl, ?_⟩)
      rw [completion_of_error hr, completion_of_error hr']
      simp only [hothers (.exception ref) nofun]
  | exception ref =>
    simp only [ContextCallback.source] at hr hr' ⊢
    rw [call_exception_context, hr]
    cases r with
    | ok value =>
      refine .inr (.inr ⟨rfl, ?_⟩)
      rw [completion_of_ok hr, completion_of_ok hr']
      simp only [hothers (.workDone ref) nofun]
    | error e =>
      rw [completion_of_error hr, completion_of_error hr', if_pos hcallback, if_neg herase]
      exact .inr (.inl ⟨e, rfl, rfl, rfl⟩)

/-- A callback decides what has become of no task but its own. -/
theorem completion_call_of_ne {callback : ContextCallback Ref} {ref : Ref}
    (hne : ref ≠ callback.source) : (s.call callback).completion ref = s.completion ref := by
  refine completion_congr (by rw [call_outcome]) fun callback' hsource => ?_
  rw [call_callbacks, List.mem_erase_of_ne]
  rintro rfl
  exact hne hsource.symm

/-- A callback counts the task it sees, in `workDone` or as a failure. -/
theorem Accounts.counts_call (h : s.Accounts) {callback : ContextCallback Ref}
    (hcallback : callback ∈ s.state.callbacks)
    (hsource : (s.state.outcome callback.source).isSome) :
    (s.call callback).context.workTotal = s.context.workTotal ∧
    (s.call callback).context.workDone = (s.call callback).tasksThat .counted ∧
    ((s.call callback).context.exception ≠ none ↔ 0 < (s.call callback).tasksThat .recorded) := by
  have hsupplied : (s.call callback).supplied = s.supplied := rfl
  have hadds : s.completion callback.source = .waiting → ∀ completion, completion ≠ .waiting →
      (s.call callback).tasksThat completion = s.tasksThat completion
        + if (s.call callback).completion callback.source = completion then 1 else 0 :=
    fun hwaiting _ => tasksThat_of_waiting hsupplied (h.callbacks callback hcallback) hwaiting
      fun _ => completion_call_of_ne
  rcases h.call_cases hcallback hsource with ⟨hcontext, hwaiting, hcounted⟩ |
    ⟨e, hcontext, hwaiting, hrecorded⟩ | ⟨hcontext, hsame⟩
  · refine ⟨by rw [hcontext], ?_, ?_⟩
    · rw [hcontext, hadds hwaiting .counted nofun, hcounted, if_pos rfl, ← h.workDone]
    · rw [hcontext, hadds hwaiting .recorded nofun, hcounted, if_neg nofun]
      exact h.exception
  · refine ⟨by rw [hcontext], ?_, ?_⟩
    · rw [hcontext, hadds hwaiting .counted nofun, hrecorded, if_neg nofun]
      exact h.workDone
    · rw [hcontext, hadds hwaiting .recorded nofun, hrecorded, if_pos rfl]
      exact ⟨fun _ => Nat.succ_pos _, fun _ => Option.some_ne_none e⟩
  · have hcounts := tasksThat_congr hsupplied fun ref _ => by
      by_cases hne : ref = callback.source
      · rw [hne, hsame]
      · exact completion_call_of_ne hne
    rw [hcontext, hcounts, hcounts]
    exact ⟨rfl, h.workDone, h.exception⟩

/-- **A callback keeps the accounts.** -/
theorem Accounts.call (h : s.Accounts) {callback : ContextCallback Ref}
    (hcallback : callback ∈ s.state.callbacks)
    (hsource : (s.state.outcome callback.source).isSome) : (s.call callback).Accounts := by
  obtain ⟨htotal, hdone, hexception⟩ := h.counts_call hcallback hsource
  refine ⟨?_, ?_, ?_, ?_, ?_, ?_, hdone, hexception⟩
  · rw [call_callbacks]
    exact h.nodup.erase callback
  · rw [call_callbacks]
    exact fun callback' hmem => h.callbacks callback' (List.mem_of_mem_erase hmem)
  · rw [call_tasks]
    exact h.tasks
  · rw [call_outcome]
    exact h.settled
  · rw [call_outcome, call_callbacks]
    intro ref href hnone
    obtain ⟨hworkDone, hexception⟩ := h.pending ref href hnone
    -- the promise of a callback that is called is settled
    have hne : ∀ callback' : ContextCallback Ref,
        callback'.source = ref → callback' ≠ callback := by
      rintro callback' rfl rfl
      rw [hnone] at hsource
      cases hsource
    exact ⟨(List.mem_erase_of_ne (hne _ rfl)).mpr hworkDone,
      (List.mem_erase_of_ne (hne _ rfl)).mpr hexception⟩
  · rw [htotal]
    exact h.workTotal

/-- **A step keeps the accounts.** -/
theorem Accounts.step (h : s.Accounts) {action : ContextAction Ref Value}
    (hstep : contextClient.next action s = some s') : s'.Accounts := by
  cases action with
  | supply ref =>
    obtain ⟨href, hstep⟩ := Option.ite_none_left_eq_some.mp hstep
    exact Option.some.inj hstep ▸ h.supply href
  | finish ref result =>
    obtain ⟨href, hstep⟩ := Option.ite_none_right_eq_some.mp hstep
    exact Option.some.inj hstep ▸ h.finish href result
  | call callback =>
    obtain ⟨⟨hcallback, hsource⟩, hstep⟩ := Option.ite_none_right_eq_some.mp hstep
    exact Option.some.inj hstep ▸ h.call hcallback hsource

/-- The accounts of every run. -/
theorem accounts (h : contextClient.Leads new s) : s.Accounts :=
  h.invariant (fun _ _ _ hs hstep => hs.step hstep) accounts_new

/-! ### Failures -/

/-- **An exception is never forgotten.** -/
theorem exception_step (h : s.context.exception ≠ none) {action : ContextAction Ref Value}
    (hstep : contextClient.next action s = some s') : s'.context.exception ≠ none := by
  cases action with
  | supply ref =>
    obtain ⟨-, hstep⟩ := Option.ite_none_left_eq_some.mp hstep
    rwa [← Option.some.inj hstep, supply_of_ne_none h]
  | finish ref result =>
    obtain ⟨-, hstep⟩ := Option.ite_none_right_eq_some.mp hstep
    rwa [← Option.some.inj hstep, finish_context]
  | call callback =>
    obtain ⟨-, hstep⟩ := Option.ite_none_right_eq_some.mp hstep
    rw [← Option.some.inj hstep]
    cases callback with
    | workDone ref =>
      rw [call_workDone_context]
      rcases s.state.outcome ref with _ | _ | _ <;> exact h
    | exception ref =>
      rw [call_exception_context]
      rcases s.state.outcome ref with _ | e | _
      · exact h
      · exact Option.some_ne_none e
      · exact h

theorem exception_leads (h : s.context.exception ≠ none) (hleads : contextClient.Leads s s') :
    s'.context.exception ≠ none :=
  hleads.invariant (I := fun s => s.context.exception ≠ none)
    (fun _ _ _ hs hstep => exception_step hs hstep) h

/-- A success that was not counted keeps `workDone` below `workTotal`. -/
theorem Accounts.workDone_lt (h : s.Accounts) (hexception : s.context.exception ≠ none) :
    s.context.workDone < s.context.workTotal := by
  have hrecorded := h.exception.mp hexception
  rw [h.workDone, h.workTotal, card_supplied]
  omega

theorem getProgress_ne_one {context : PromiseContext} (h : context.workDone < context.workTotal) :
    context.getProgress ≠ 1 := by
  have htotal : (context.workTotal : ℚ) ≠ 0 := by
    exact_mod_cast (Nat.zero_lt_of_lt h).ne'
  unfold PromiseContext.getProgress
  rw [Ne, div_eq_one_iff_eq htotal, Nat.cast_inj]
  exact h.ne

end ContextRun

/-- `getState` of a task whose `PromiseContext` has kept an exception. -/
theorem getState_of_exception {task : TaskState}
    (h : task.world.promiseContext.exception ≠ none) : getState task = .failed :=
  if_neg h

open ContextRun in
/-- **The accounts of a `PromiseContext`**, in every state of every run: `workTotal` counts the
tasks whose success or failure was seen and those whose end was not, and `workDone` the first of
them.  Once a failure was seen, the task has failed for good: `supplyAsync` throws and changes
nothing, and `workDone` stays below `workTotal`. -/
theorem promiseContext_accounts (h : contextClient.Leads new s) :
    s.context.workTotal
      = s.tasksThat .counted + s.tasksThat .recorded + s.tasksThat .waiting ∧
    s.context.workDone = s.tasksThat .counted ∧
    (0 < s.tasksThat .recorded → ∀ s', contextClient.Leads s s' →
      (∀ task : TaskState, task.world.promiseContext = s'.context → getState task = .failed) ∧
      (∀ ref, s'.supplyAsync ref = (.error .illegalStateException, s'.state)) ∧
      s'.context.workDone < s'.context.workTotal ∧ s'.context.getProgress ≠ 1) := by
  have haccounts := accounts h
  refine ⟨?_, haccounts.workDone, ?_⟩
  · rw [haccounts.workTotal, card_supplied]
  · intro hrecorded s' hleads
    have hexception := exception_leads (haccounts.exception.mpr hrecorded) hleads
    have hlt := (accounts (h.trans hleads)).workDone_lt hexception
    refine ⟨?_, supplyAsync_of_ne_none hexception, hlt, getProgress_ne_one hlt⟩
    intro task htask
    exact getState_of_exception (htask ▸ hexception)

/-- Three tasks: one fails, one succeeds and one is still running. -/
def threeTasks : List (ContextAction ℕ fun _ => Unit) :=
  [.supply 0, .supply 1, .supply 2, .finish 0 (.error .ioException), .finish 1 (.ok ()),
    .call (.exception 0), .call (.workDone 0), .call (.workDone 1)]

open ContextRun in
theorem promiseContext_accounts_example : ∃ s, contextClient.run threeTasks new = some s ∧
    s.tasksThat .counted = 1 ∧ s.tasksThat .recorded = 1 ∧ s.tasksThat .waiting = 1 ∧
    s.context.workTotal = 1 + 1 + 1 ∧
    ∀ s', contextClient.Leads s s' → s'.context.workDone < s'.context.workTotal := by
  obtain ⟨s, hrun⟩ : ∃ s, contextClient.run threeTasks new = some s := ⟨_, rfl⟩
  obtain ⟨htotal, -, hfailed⟩ := promiseContext_accounts ⟨threeTasks, hrun⟩
  have hcounted : s.tasksThat .counted = 1 := by cases hrun; rfl
  have hrecorded : s.tasksThat .recorded = 1 := by cases hrun; rfl
  have hwaiting : s.tasksThat .waiting = 1 := by cases hrun; rfl
  rw [hcounted, hrecorded, hwaiting] at htotal
  refine ⟨s, hrun, hcounted, hrecorded, hwaiting, htotal, fun s' hleads => ?_⟩
  exact (hfailed (by rw [hrecorded]; exact Nat.one_pos) s' hleads).2.2.1

end ExamGeneratorNg
