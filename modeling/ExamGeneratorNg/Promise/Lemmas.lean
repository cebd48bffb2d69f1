import ExamGeneratorNg.Promise.Basic
import Mathlib.Data.List.Basic

/-!
# Lemmas about promises

The rules by which programs made of promises are verified: an invariant of every reachable state
(`Reachable.invariant`), and the promises that are settled when nothing can happen any more
(`Live.settled`).
-/

namespace Promise

variable {Ref : Type} {Value : Ref → Type} {E Callback Task World : Type}

/-! ### The operations on states -/

namespace State

variable (s : State Ref Value E Callback Task World)

@[simp] theorem register_outcome (c : Callback) : (s.register c).outcome = s.outcome := rfl

@[simp] theorem register_callbacks (c : Callback) :
    (s.register c).callbacks = s.callbacks ++ [c] := rfl

@[simp] theorem register_tasks (c : Callback) : (s.register c).tasks = s.tasks := rfl

@[simp] theorem register_world (c : Callback) : (s.register c).world = s.world := rfl

@[simp] theorem registerAll_outcome (cs : List Callback) :
    (s.registerAll cs).outcome = s.outcome := rfl

@[simp] theorem registerAll_callbacks (cs : List Callback) :
    (s.registerAll cs).callbacks = s.callbacks ++ cs := rfl

@[simp] theorem registerAll_tasks (cs : List Callback) : (s.registerAll cs).tasks = s.tasks := rfl

@[simp] theorem registerAll_world (cs : List Callback) : (s.registerAll cs).world = s.world := rfl

@[simp] theorem start_outcome (t : Task) : (s.start t).outcome = s.outcome := rfl

@[simp] theorem start_callbacks (t : Task) : (s.start t).callbacks = s.callbacks := rfl

@[simp] theorem start_tasks (t : Task) : (s.start t).tasks = s.tasks ++ [t] := rfl

@[simp] theorem start_world (t : Task) : (s.start t).world = s.world := rfl

variable [DecidableEq Ref]

theorem settle_of_some {ref : Ref} {r : Except E (Value ref)} {r' : Except E (Value ref)}
    (h : s.outcome ref = some r') : s.settle ref r = s := by
  unfold settle
  rw [h]

theorem settle_of_none {ref : Ref} {r : Except E (Value ref)} (h : s.outcome ref = none) :
    s.settle ref r = { s with outcome := Function.update s.outcome ref (some r) } := by
  unfold settle
  rw [h]

@[simp] theorem settle_callbacks (ref : Ref) (r : Except E (Value ref)) :
    (s.settle ref r).callbacks = s.callbacks := by
  unfold settle
  split <;> rfl

@[simp] theorem settle_tasks (ref : Ref) (r : Except E (Value ref)) :
    (s.settle ref r).tasks = s.tasks := by
  unfold settle
  split <;> rfl

@[simp] theorem settle_world (ref : Ref) (r : Except E (Value ref)) :
    (s.settle ref r).world = s.world := by
  unfold settle
  split <;> rfl

theorem settle_outcome_of_ne {ref ref' : Ref} (h : ref' ≠ ref) (r : Except E (Value ref)) :
    (s.settle ref r).outcome ref' = s.outcome ref' := by
  unfold settle
  split
  · rfl
  · exact Function.update_of_ne h _ _

theorem settle_outcome_isSome (ref : Ref) (r : Except E (Value ref)) :
    ((s.settle ref r).outcome ref).isSome := by
  cases h : s.outcome ref with
  | some r' => rw [settle_of_some s h, h]; rfl
  | none => rw [settle_of_none s h]; simp

/-- What is known of a promise stays known when another one, or it, is settled. -/
theorem settle_outcome_of_some {ref ref' : Ref} {r : Except E (Value ref)}
    {r' : Except E (Value ref')} (h : s.outcome ref' = some r') :
    (s.settle ref r).outcome ref' = some r' := by
  by_cases hne : ref' = ref
  · subst hne
    rw [settle_of_some s h, h]
  · rw [settle_outcome_of_ne s hne, h]

/-- An outcome after a promise was settled is an outcome from before, or the new one. -/
theorem settle_outcome_cases {ref ref' : Ref} {r : Except E (Value ref)}
    {r' : Except E (Value ref')} (h : (s.settle ref r).outcome ref' = some r') :
    s.outcome ref' = some r' ∨ ∃ heq : ref = ref', r' = heq ▸ r := by
  by_cases hne : ref' = ref
  · subst hne
    cases hs : s.outcome ref' with
    | some r'' => left; rwa [settle_of_some s hs, hs] at h
    | none =>
      right
      rw [settle_of_none s hs] at h
      simp only [Function.update_self, Option.some.injEq] at h
      exact ⟨rfl, h.symm⟩
  · left
    rwa [settle_outcome_of_ne s hne] at h

end State

/-! ### What a callback settles -/

/-- How the target of a callback that `then` has registered can come to be settled. -/
theorem callThen_outcome [DecidableEq Ref] {s : State Ref Value E Callback Task World}
    {source target : Ref}
    {body : Value source →
      Stateful.Code (State Ref Value E Callback Task World) E (Option (Value target))}
    {r : Except E (Value target)} (h : (callThen source target body s).outcome target = some r) :
    s.outcome target = some r ∨ (∃ e, s.outcome source = some (.error e) ∧ r = .error e)
    ∨ ∃ v, s.outcome source = some (.ok v) ∧ (((body v).run.run s).2.outcome target = some r
      ∨ (∃ e, ((body v).run.run s).1 = .error e ∧ r = .error e)
      ∨ ∃ w, ((body v).run.run s).1 = .ok (some w) ∧ r = .ok w) := by
  unfold callThen at h
  cases hsource : s.outcome source with
  | none =>
    rw [hsource] at h
    exact .inl h
  | some r' =>
    rw [hsource] at h
    cases r' with
    | error e =>
      rcases s.settle_outcome_cases h with hold | ⟨_, hnew⟩
      · exact .inl hold
      · exact .inr (.inl ⟨e, rfl, hnew⟩)
    | ok v =>
      refine .inr (.inr ⟨v, rfl, ?_⟩)
      dsimp only at h
      rcases hrun : (body v).run.run s with ⟨e | ⟨_ | w⟩, s'⟩
      · rw [hrun] at h
        rcases s'.settle_outcome_cases h with hold | ⟨_, hnew⟩
        · exact .inl hold
        · exact .inr (.inl ⟨e, rfl, hnew⟩)
      · rw [hrun] at h
        exact .inl h
      · rw [hrun] at h
        rcases s'.settle_outcome_cases h with hold | ⟨_, hnew⟩
        · exact .inl hold
        · exact .inr (.inr ⟨w, rfl, hnew⟩)

namespace System

variable {sys : System Ref Value E Callback Task World}
  {s s' s'' : State Ref Value E Callback Task World}

/-! ### Promises on their way -/

/-- Whatever is on its way stays so while promises are settled, callbacks registered and tasks
started. -/
theorem Live.mono {hole : Option Ref} {ref : Ref}
    (houtcome : (s.outcome ref).isSome → (s'.outcome ref).isSome)
    (hcallbacks : s.callbacks ⊆ s'.callbacks) (htasks : s.tasks ⊆ s'.tasks)
    (h : sys.Live hole s ref) : sys.Live hole s' ref := by
  rcases h with h | h | ⟨t, ht, h⟩ | ⟨c, hc, h⟩
  · exact .inl h
  · exact .inr (.inl (houtcome h))
  · exact .inr (.inr (.inl ⟨t, htasks ht, h⟩))
  · exact .inr (.inr (.inr ⟨c, hcallbacks hc, h⟩))

/-- A callback that is called leaves the promise that depends on it as the hole. -/
theorem Live.take_callback {c : Callback} {before after : List Callback} {ref : Ref}
    (hcallbacks : s.callbacks = before ++ c :: after) (h : sys.Live none s ref) :
    sys.Live (sys.target c) { s with callbacks := before ++ after } ref := by
  rcases h with h | h | h | ⟨c', hc', h⟩
  · cases h
  · exact .inr (.inl h)
  · exact .inr (.inr (.inl h))
  · rw [hcallbacks, List.mem_append, List.mem_cons] at hc'
    rcases hc' with hc' | rfl | hc'
    · exact .inr (.inr (.inr ⟨c', List.mem_append_left _ hc', h⟩))
    · exact .inl h
    · exact .inr (.inr (.inr ⟨c', List.mem_append_right _ hc', h⟩))

/-- A task that ends leaves its promise as the hole. -/
theorem Live.take_task {t : Task} {before after : List Task} {ref : Ref}
    (htasks : s.tasks = before ++ t :: after) (h : sys.Live none s ref) :
    sys.Live (some (sys.promise t)) { s with tasks := before ++ after } ref := by
  rcases h with h | h | ⟨t', ht', h⟩ | h
  · cases h
  · exact .inr (.inl h)
  · rw [htasks, List.mem_append, List.mem_cons] at ht'
    rcases ht' with ht' | rfl | ht'
    · exact .inr (.inr (.inl ⟨t', List.mem_append_left _ ht', h⟩))
    · exact .inl (by rw [h])
    · exact .inr (.inr (.inl ⟨t', List.mem_append_right _ ht', h⟩))
  · exact .inr (.inr (.inr h))

/-- The hole is closed once its promise is on its way. -/
theorem Live.close {hole : Option Ref} {ref : Ref} (hhole : ∀ r, hole = some r → sys.Live none s r)
    (h : sys.Live hole s ref) : sys.Live none s ref := by
  rcases h with h | h
  · exact hhole ref h
  · exact .inr h

/-- If nothing can happen any more, every promise on its way is settled, provided that callbacks
lead from promises of lower to promises of higher rank and that every callback waits for a promise
on its way. -/
theorem Live.settled (rank : Ref → ℕ)
    (hrank : ∀ c ref, sys.target c = some ref → rank (sys.source c) < rank ref)
    (hclosed : ∀ c ∈ s.callbacks, sys.Live none s (sys.source c)) (hquiescent : sys.Quiescent s)
    {ref : Ref} (h : sys.Live none s ref) : (s.outcome ref).isSome := by
  obtain ⟨htasks, hcallbacks⟩ := hquiescent
  -- by induction on the rank of the promise
  induction hn : rank ref using Nat.strongRecOn generalizing ref with
  | ind n ih =>
    rcases h with h | h | ⟨t, ht, -⟩ | ⟨c, hc, htarget⟩
    · cases h
    · exact h
    · rw [htasks] at ht
      cases ht
    · have hsource := ih (rank (sys.source c)) (hn ▸ hrank c ref htarget) (hclosed c hc) rfl
      rw [hcallbacks c hc] at hsource
      cases hsource

/-! ### What can happen -/

variable [DecidableEq Ref]

/-- Taking the first element with a property out of a list. -/
theorem eraseP_of_find? {α : Type} {p : α → Bool} {xs : List α} {x : α} (h : xs.find? p = some x) :
    ∃ before after, xs = before ++ x :: after ∧ xs.eraseP p = before ++ after
      ∧ (∀ y ∈ before, p y = false) ∧ p x = true := by
  obtain ⟨hx, before, after, hxs, hbefore⟩ := List.find?_eq_some_iff_append.mp h
  have hbefore : ∀ y ∈ before, p y = false := by simpa using hbefore
  refine ⟨before, after, hxs, ?_, hbefore, hx⟩
  rw [hxs, List.eraseP_append_right _ (by simpa using hbefore), List.eraseP_cons_of_pos hx]

/-- The end of a task as a step. -/
theorem next_task (ref : Ref) : sys.next s (.task ref)
    = (s.tasks.find? fun t => sys.promise t = ref).map fun t =>
        sys.finish t { s with tasks := s.tasks.eraseP fun t => sys.promise t = ref } := by
  unfold next
  dsimp only
  cases s.tasks.find? fun t => sys.promise t = ref <;> rfl

/-- A task can end as long as it is running. -/
theorem next_task_eq_none_iff {ref : Ref} :
    sys.next s (.task ref) = none ↔ ∀ t ∈ s.tasks, sys.promise t ≠ ref := by
  rw [next_task, Option.map_eq_none_iff, List.find?_eq_none]
  simp only [decide_eq_true_eq, ne_eq]

/-- The end of a task is the same step in systems in which it does the same. -/
theorem next_task_congr {sys' : System Ref Value E Callback Task World} {ref : Ref}
    (hpromise : sys.promise = sys'.promise)
    (hfinish : ∀ t ∈ s.tasks, sys.promise t = ref → sys.finish t = sys'.finish t) :
    sys.next s (.task ref) = sys'.next s (.task ref) := by
  rw [next_task, next_task, ← hpromise]
  refine Option.map_congr fun t hfind => ?_
  rw [hfinish t (List.mem_of_find?_eq_some hfind) (of_decide_eq_true (List.find?_some hfind :))]

/-- Everything that can happen: a callback of a settled promise is called, the first one of its
promise, or a task ends. -/
theorem next_cases {action : Action Ref} (h : sys.next s action = some s') :
    (∃ c before after, action = .callback (sys.source c) ∧ (s.outcome (sys.source c)).isSome
      ∧ s.callbacks = before ++ c :: after ∧ (∀ c' ∈ before, sys.source c' ≠ sys.source c)
      ∧ s' = sys.call c { s with callbacks := before ++ after })
    ∨ ∃ t before after, action = .task (sys.promise t) ∧ s.tasks = before ++ t :: after
      ∧ s' = sys.finish t { s with tasks := before ++ after } := by
  cases action with
  | callback ref =>
    left
    unfold next at h
    cases hout : s.outcome ref with
    | none => simp [hout] at h
    | some r =>
      cases hfind : s.callbacks.find? fun c => sys.source c = ref with
      | none => simp [hout, hfind] at h
      | some c =>
        simp only [hout, hfind, Option.some.injEq] at h
        obtain ⟨before, after, hcallbacks, herase, hbefore, hc⟩ := eraseP_of_find? hfind
        have hc : sys.source c = ref := of_decide_eq_true hc
        subst hc
        refine ⟨c, before, after, rfl, by rw [hout]; rfl, hcallbacks, ?_, ?_⟩
        · intro c' hc'
          exact of_decide_eq_false (hbefore c' hc')
        · rw [← h, herase]
  | task ref =>
    right
    unfold next at h
    cases hfind : s.tasks.find? fun t => sys.promise t = ref with
    | none => simp [hfind] at h
    | some t =>
      simp only [hfind, Option.some.injEq] at h
      obtain ⟨before, after, htasks, herase, -, ht⟩ := eraseP_of_find? hfind
      have ht : sys.promise t = ref := of_decide_eq_true ht
      subst ht
      exact ⟨t, before, after, rfl, htasks, by rw [← h, herase]⟩

@[simp] theorem run_nil : sys.run s [] = some s := rfl

theorem run_cons {action : Action Ref} {actions : List (Action Ref)} :
    sys.run s (action :: actions) = (sys.next s action).bind fun s' => sys.run s' actions := rfl

theorem run_append {actions₁ actions₂ : List (Action Ref)} :
    sys.run s (actions₁ ++ actions₂)
      = (sys.run s actions₁).bind fun s' => sys.run s' actions₂ := by
  unfold run
  rw [List.foldlM_append]
  rfl

theorem Reachable.refl : sys.Reachable s s := ⟨[], rfl⟩

theorem Reachable.trans (h₁ : sys.Reachable s s') (h₂ : sys.Reachable s' s'') :
    sys.Reachable s s'' := by
  obtain ⟨actions₁, h₁⟩ := h₁
  obtain ⟨actions₂, h₂⟩ := h₂
  refine ⟨actions₁ ++ actions₂, ?_⟩
  rw [run_append, h₁]
  exact h₂

theorem Reachable.next (h : sys.Reachable s s') {action : Action Ref}
    (hnext : sys.next s' action = some s'') : sys.Reachable s s'' := by
  refine h.trans ⟨[action], ?_⟩
  rw [run_cons, hnext]
  rfl

/-- If something holds at the end of a run and not at its start, there is an action that makes it
hold. -/
theorem exists_action_of_run {p : State Ref Value E Callback Task World → Prop}
    {actions : List (Action Ref)} (h : sys.run s actions = some s') (hs : ¬ p s) (hs' : p s') :
    ∃ before action after s₁ s₂, actions = before ++ action :: after ∧ sys.run s before = some s₁
      ∧ ¬ p s₁ ∧ sys.next s₁ action = some s₂ ∧ p s₂ ∧ sys.run s₂ after = some s' := by
  induction actions generalizing s with
  | nil =>
    rw [run_nil, Option.some.injEq] at h
    exact absurd (h ▸ hs') hs
  | cons action actions ih =>
    rw [run_cons] at h
    obtain ⟨s₁, hs₁, h⟩ := Option.bind_eq_some_iff.mp h
    by_cases hp : p s₁
    · exact ⟨[], action, actions, s, s₁, rfl, run_nil, hs, hs₁, hp, h⟩
    · obtain ⟨before, action', after, s₂, s₃, rfl, hbefore, hs₂, hnext, hs₃, hafter⟩ := ih h hp
      refine ⟨action :: before, action', after, s₂, s₃, rfl, ?_, hs₂, hnext, hs₃, hafter⟩
      rw [run_cons, hs₁]
      exact hbefore

theorem reachable_runFirst (n : ℕ) : sys.Reachable s (sys.runFirst n s) := by
  induction n generalizing s with
  | zero => exact .refl
  | succ n ih =>
    unfold runFirst
    dsimp only
    split
    · rename_i s' h
      obtain ⟨action, -, haction⟩ := List.exists_of_findSome?_eq_some h
      have hstep : sys.Reachable s s' := ⟨[action], by rw [run_cons, haction]; rfl⟩
      exact hstep.trans ih
    · exact .refl

/-- What holds at the start of a run and is kept by every callback and every task holds at its
end. -/
theorem Reachable.invariant {I : State Ref Value E Callback Task World → Prop}
    (hcall : ∀ s c before after, I s → s.callbacks = before ++ c :: after →
      (s.outcome (sys.source c)).isSome → I (sys.call c { s with callbacks := before ++ after }))
    (hfinish : ∀ s t before after, I s → s.tasks = before ++ t :: after →
      I (sys.finish t { s with tasks := before ++ after }))
    (h : sys.Reachable s s') (hs : I s) : I s' := by
  obtain ⟨actions, h⟩ := h
  induction actions generalizing s with
  | nil =>
    rw [run_nil, Option.some.injEq] at h
    rwa [← h]
  | cons action actions ih =>
    rw [run_cons] at h
    obtain ⟨s₁, hs₁, h⟩ := Option.bind_eq_some_iff.mp h
    refine ih ?_ h
    rcases next_cases hs₁ with ⟨c, before, after, -, hsource, hcallbacks, -, rfl⟩
      | ⟨t, before, after, -, htasks, rfl⟩
    · exact hcall s c before after hs hcallbacks hsource
    · exact hfinish s t before after hs htasks

end System

end Promise
