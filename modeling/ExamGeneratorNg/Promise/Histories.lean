import ExamGeneratorNg.Promise.Lemmas
import Mathlib.Algebra.BigOperators.Group.Multiset.Basic
import Mathlib.Algebra.GroupWithZero.Nat
import Mathlib.Data.Multiset.OrderedMonoid
import Mathlib.Data.Multiset.UnionInter

/-!
# What happens in a run

A `History` is what has happened on the way to a state: the callbacks that were called and the
tasks that have ended.  Everything that can happen has a name, and `State.pending` are the names of
what is still to happen.  Where calling a callback adds at most the names of its children to what
is pending (`Lineage`),

* runs end, if a name weighs more than its children (`Lineage.length_add_weight_le`);
* nothing happens twice, if every name is the child of one name only (`Lineage.nodup`).
-/

namespace Promise

open Stateful

/-! ### Histories -/

/-- Something that happens once in a run. -/
inductive Event (Callback Task : Type)
  /-- a callback is called -/
  | called (c : Callback)
  /-- a task ends -/
  | ended (t : Task)
deriving DecidableEq, Repr

variable {Ref : Type} {Value : Ref → Type} {E Callback Task World : Type}

namespace System

/-- What may have happened on the way from the state `s₀` to a state. -/
inductive History (sys : System Ref Value E Callback Task World)
    (s₀ : State Ref Value E Callback Task World) :
    List (Event Callback Task) → State Ref Value E Callback Task World → Prop
  | start : History sys s₀ [] s₀
  | call {past : List (Event Callback Task)} {s : State Ref Value E Callback Task World}
      {c : Callback} {before after : List Callback} (h : History sys s₀ past s)
      (hcallbacks : s.callbacks = before ++ c :: after)
      (hsource : (s.outcome (sys.source c)).isSome) :
      History sys s₀ (past ++ [.called c]) (sys.call c { s with callbacks := before ++ after })
  | finish {past : List (Event Callback Task)} {s : State Ref Value E Callback Task World}
      {t : Task} {before after : List Task} (h : History sys s₀ past s)
      (htasks : s.tasks = before ++ t :: after) :
      History sys s₀ (past ++ [.ended t]) (sys.finish t { s with tasks := before ++ after })

variable {sys : System Ref Value E Callback Task World}
  {s s' s₀ : State Ref Value E Callback Task World} {past : List (Event Callback Task)}

/-- What holds at the start and is kept by every callback and every task holds after every
history. -/
theorem History.invariant {I : State Ref Value E Callback Task World → Prop}
    (hcall : ∀ s c before after, I s → s.callbacks = before ++ c :: after →
      (s.outcome (sys.source c)).isSome → I (sys.call c { s with callbacks := before ++ after }))
    (hfinish : ∀ s t before after, I s → s.tasks = before ++ t :: after →
      I (sys.finish t { s with tasks := before ++ after }))
    (h : sys.History s₀ past s) (hs : I s₀) : I s := by
  induction h with
  | start => exact hs
  | call _ hcallbacks hsource ih => exact hcall _ _ _ _ ih hcallbacks hsource
  | finish _ htasks ih => exact hfinish _ _ _ _ ih htasks

variable [DecidableEq Ref]

/-- Every action is one event more. -/
theorem History.next (h : sys.History s₀ past s) {action : Action Ref}
    (hnext : sys.next s action = some s') : ∃ event, sys.History s₀ (past ++ [event]) s' := by
  rcases next_cases hnext with ⟨c, before, after, -, hsource, hcallbacks, -, rfl⟩
    | ⟨t, before, after, -, htasks, rfl⟩
  · exact ⟨.called c, h.call hcallbacks hsource⟩
  · exact ⟨.ended t, h.finish htasks⟩

/-- A run has a history, with as many events as the run has actions. -/
theorem History.run (h : sys.History s₀ past s) {actions : List (Action Ref)}
    (hrun : sys.run s actions = some s') :
    ∃ past', sys.History s₀ past' s' ∧ past'.length = past.length + actions.length := by
  induction actions generalizing s past with
  | nil =>
    obtain rfl : s = s' := Option.some.inj hrun
    exact ⟨past, h, rfl⟩
  | cons action actions ih =>
    rw [run_cons] at hrun
    obtain ⟨s₁, hs₁, hrun⟩ := Option.bind_eq_some_iff.mp hrun
    obtain ⟨event, hnext⟩ := h.next hs₁
    obtain ⟨past', hpast', hlength⟩ := ih hnext hrun
    refine ⟨past', hpast', ?_⟩
    rw [hlength, List.length_append, List.length_singleton, List.length_cons]
    omega

theorem Reachable.history (h : sys.Reachable s₀ s) : ∃ past, sys.History s₀ past s := by
  obtain ⟨actions, hrun⟩ := h
  obtain ⟨past, hpast, -⟩ := History.start.run hrun
  exact ⟨past, hpast⟩

/-! ### The end of a run -/

/-- Nothing can happen any more exactly if no action is possible. -/
theorem quiescent_iff : sys.Quiescent s ↔ ∀ action, sys.next s action = none := by
  constructor
  · rintro ⟨htasks, hcallbacks⟩ action
    by_contra hne
    obtain ⟨s', hnext⟩ := Option.ne_none_iff_exists'.mp hne
    rcases next_cases hnext with ⟨c, before, after, -, hsource, heq, -, -⟩
      | ⟨t, before, after, -, heq, -⟩
    · rw [hcallbacks c (by rw [heq]; simp)] at hsource
      cases hsource
    · rw [htasks] at heq
      exact absurd heq.symm (by simp)
  · intro h
    constructor
    · rw [List.eq_nil_iff_forall_not_mem]
      intro t ht
      exact next_task_eq_none_iff.mp (h (.task (sys.promise t))) t ht rfl
    · intro c hc
      have hnone := h (.callback (sys.source c))
      unfold next at hnone
      cases hout : s.outcome (sys.source c) with
      | none => rfl
      | some r =>
        cases hfind : s.callbacks.find? fun c' => sys.source c' = sys.source c with
        | none => simpa using List.find?_eq_none.mp hfind c hc
        | some c' => simp [hout, hfind] at hnone

/-- Where runs cannot become longer than some bound, every run can be continued until nothing can
happen any more. -/
theorem exists_quiescent {bound : ℕ}
    (hbound : ∀ actions s', sys.run s actions = some s' → actions.length ≤ bound) :
    ∃ actions s', sys.run s actions = some s' ∧ sys.Quiescent s' := by
  induction bound generalizing s with
  | zero =>
    refine ⟨[], s, rfl, quiescent_iff.mpr fun action => ?_⟩
    by_contra hne
    obtain ⟨s', hnext⟩ := Option.ne_none_iff_exists'.mp hne
    have hlength := hbound [action] s' (by rw [run_cons, hnext]; rfl)
    exact absurd hlength (by simp)
  | succ bound ih =>
    by_cases hquiescent : sys.Quiescent s
    · exact ⟨[], s, rfl, hquiescent⟩
    · rw [quiescent_iff, not_forall] at hquiescent
      obtain ⟨action, haction⟩ := hquiescent
      obtain ⟨s₁, hnext⟩ := Option.ne_none_iff_exists'.mp haction
      have hstep : ∀ actions s', sys.run s₁ actions = some s' →
          sys.run s (action :: actions) = some s' := by
        intro actions s' hrun
        rw [run_cons, hnext]
        exact hrun
      obtain ⟨actions, s', hrun, hend⟩ := ih fun actions s' hrun =>
        Nat.le_of_succ_le_succ (hbound _ s' (hstep actions s' hrun))
      exact ⟨action :: actions, s', hstep actions s' hrun, hend⟩

end System

/-! ### What is pending -/

section

variable {Name V : Type} (name : Event Callback Task → Name)

/-- The names of what is still to happen. -/
def State.pending (s : State Ref Value E Callback Task World) : Multiset Name :=
  (s.callbacks.map fun c => name (.called c)) + (s.tasks.map fun t => name (.ended t))

variable {name} {s s' s'' : State Ref Value E Callback Task World}

/-- An element of a list, and the others. -/
theorem coe_map_middle {α : Type} (f : α → Name) (before : List α) (x : α) (after : List α) :
    (((before ++ x :: after).map f : List Name) : Multiset Name)
      = f x ::ₘ ((before ++ after).map f : List Name) := by
  rw [Multiset.cons_coe, Multiset.coe_eq_coe]
  exact List.perm_middle.map f

theorem State.pending_take_callback {c : Callback} {before after : List Callback}
    (hcallbacks : s.callbacks = before ++ c :: after) :
    s.pending name
      = name (.called c) ::ₘ State.pending name { s with callbacks := before ++ after } := by
  unfold State.pending
  rw [hcallbacks, coe_map_middle fun c => name (.called c), Multiset.cons_add]

theorem State.pending_take_task {t : Task} {before after : List Task}
    (htasks : s.tasks = before ++ t :: after) :
    s.pending name
      = name (.ended t) ::ₘ State.pending name { s with tasks := before ++ after } := by
  unfold State.pending
  rw [htasks, coe_map_middle fun t => name (.ended t), Multiset.add_cons]

theorem State.mem_pending_of_callback {c : Callback} (h : c ∈ s.callbacks) :
    name (.called c) ∈ s.pending name :=
  Multiset.mem_add.mpr (.inl (List.mem_map.mpr ⟨c, h, rfl⟩))

theorem State.mem_pending_of_task {t : Task} (h : t ∈ s.tasks) :
    name (.ended t) ∈ s.pending name :=
  Multiset.mem_add.mpr (.inr (List.mem_map.mpr ⟨t, h, rfl⟩))

/-! ### What code adds to it -/

variable (name) (view : World → V)

/-- The second state has at most the names `new` pending beside those of the first, and the same
view of the world. -/
structure Spawned (new : Multiset Name) (s s' : State Ref Value E Callback Task World) : Prop where
  pending : ∃ added ≤ new, s'.pending name = s.pending name + added
  view : view s'.world = view s.world

variable {name view} {new new' : Multiset Name}

theorem Spawned.refl : Spawned name view new s s :=
  ⟨⟨0, Multiset.zero_le new, (add_zero _).symm⟩, rfl⟩

theorem Spawned.trans (h : Spawned name view new s s') (h' : Spawned name view new' s' s'') :
    Spawned name view (new + new') s s'' := by
  obtain ⟨added, hle, hadded⟩ := h.pending
  obtain ⟨added', hle', hadded'⟩ := h'.pending
  refine ⟨⟨added + added', add_le_add hle hle', ?_⟩, h'.view.trans h.view⟩
  rw [hadded', hadded, add_assoc]

theorem Spawned.mono (h : Spawned name view new s s') (hle : new ≤ new') :
    Spawned name view new' s s' := by
  obtain ⟨added, hadded_le, hadded⟩ := h.pending
  exact ⟨⟨added, hadded_le.trans hle, hadded⟩, h.view⟩

theorem spawned_registerAll (cs : List Callback) :
    Spawned name view (cs.map fun c => name (.called c)) s (s.registerAll cs) := by
  refine ⟨⟨_, le_rfl, ?_⟩, rfl⟩
  unfold State.pending
  rw [State.registerAll_callbacks, State.registerAll_tasks, List.map_append, ← Multiset.coe_add,
    add_right_comm]

theorem spawned_register (c : Callback) :
    Spawned name view {name (.called c)} s (s.register c) :=
  spawned_registerAll [c]

theorem spawned_start (t : Task) : Spawned name view {name (.ended t)} s (s.start t) := by
  refine ⟨⟨_, le_rfl, ?_⟩, rfl⟩
  unfold State.pending
  rw [State.start_callbacks, State.start_tasks, List.map_append, ← Multiset.coe_add, ← add_assoc]
  rfl

theorem spawned_settle [DecidableEq Ref] (ref : Ref) (r : Except E (Value ref)) :
    Spawned name view new s (s.settle ref r) := by
  refine ⟨⟨0, Multiset.zero_le new, ?_⟩, by rw [State.settle_world]⟩
  unfold State.pending
  rw [State.settle_callbacks, State.settle_tasks, add_zero]

theorem Spawned.settle [DecidableEq Ref] (h : Spawned name view new s s') (ref : Ref)
    (r : Except E (Value ref)) : Spawned name view new s (s'.settle ref r) := by
  obtain ⟨added, hle, hadded⟩ := h.pending
  obtain ⟨hpending, hview⟩ : Spawned name view 0 s' (s'.settle ref r) := spawned_settle ref r
  obtain ⟨nothing, hnothing, hsettle⟩ := hpending
  refine ⟨⟨added, hle, ?_⟩, hview.trans h.view⟩
  rw [hsettle, Multiset.le_zero.mp hnothing, add_zero, hadded]

variable (name view)

/-- Code that adds at most the names `new` to what is pending, whether it throws or not. -/
def Spawns {α : Type} (x : Code (State Ref Value E Callback Task World) E α)
    (new : Multiset Name) : Prop :=
  ∀ s, Spawned name view new s (x.run.run s).2

variable {name view} {α β ι : Type}
  {x : Code (State Ref Value E Callback Task World) E α}

theorem spawns_pure (a : α) :
    Spawns name view (pure a : Code (State Ref Value E Callback Task World) E α) new :=
  fun _ => .refl

theorem spawns_throw (e : E) :
    Spawns name view (throw e : Code (State Ref Value E Callback Task World) E α) new :=
  fun _ => .refl

theorem spawns_get :
    Spawns name view (get : Code (State Ref Value E Callback Task World) E _) new :=
  fun _ => .refl

theorem spawns_liftExcept (r : Except E α) :
    Spawns name view (liftExcept r : Code (State Ref Value E Callback Task World) E α) new := by
  cases r with
  | ok a => exact spawns_pure a
  | error e => exact spawns_throw e

theorem spawns_modify
    {f : State Ref Value E Callback Task World → State Ref Value E Callback Task World}
    (hf : ∀ s, Spawned name view new s (f s)) :
    Spawns name view (modify f : Code (State Ref Value E Callback Task World) E Unit) new :=
  hf

/-- What comes next need only be considered for the values that the code can give. -/
theorem Spawns.bind {f : α → Code (State Ref Value E Callback Task World) E β}
    (hx : Spawns name view x new)
    (hf : ∀ a, (∃ s s', x.run.run s = (.ok a, s')) → Spawns name view (f a) new') :
    Spawns name view (x >>= f) (new + new') := by
  intro s
  have hx := hx s
  rw [run_bind]
  rcases hrun : x.run.run s with ⟨e | a, s'⟩
  · rw [hrun] at hx
    exact hx.mono (Multiset.le_add_right _ _)
  · rw [hrun] at hx
    exact hx.trans (hf a ⟨s, s', hrun⟩ s')

/-- What comes first adds nothing. -/
theorem Spawns.nothing_bind {f : α → Code (State Ref Value E Callback Task World) E β}
    (hx : Spawns name view x 0)
    (hf : ∀ a, (∃ s s', x.run.run s = (.ok a, s')) → Spawns name view (f a) new) :
    Spawns name view (x >>= f) new := by
  have h := hx.bind hf
  rwa [zero_add] at h

/-- What comes next adds nothing. -/
theorem Spawns.bind_nothing {f : α → Code (State Ref Value E Callback Task World) E β}
    (hx : Spawns name view x new) (hf : ∀ a, Spawns name view (f a) 0) :
    Spawns name view (x >>= f) new := by
  have h := hx.bind fun a _ => hf a
  rwa [add_zero] at h

theorem Spawns.map (f : α → β) (hx : Spawns name view x new) : Spawns name view (f <$> x) new := by
  rw [map_eq_pure_bind]
  exact hx.bind_nothing fun a => spawns_pure (f a)

/-- A loop adds what its rounds add. -/
theorem spawns_foldlM {f : β → ι → Code (State Ref Value E Callback Task World) E β}
    {children : ι → Multiset Name} (xs : List ι)
    (hf : ∀ b, ∀ i ∈ xs, Spawns name view (f b i) (children i)) (b : β) :
    Spawns name view (xs.foldlM f b) (xs.map children).sum := by
  induction xs generalizing b with
  | nil => exact spawns_pure b
  | cons i xs ih =>
    rw [List.foldlM_cons, List.map_cons, List.sum_cons]
    refine (hf b i List.mem_cons_self).bind fun b' _ => ?_
    exact ih (fun b i hi => hf b i (List.mem_cons_of_mem _ hi)) b'

theorem spawns_forM {f : ι → Code (State Ref Value E Callback Task World) E Unit}
    {children : ι → Multiset Name} (xs : List ι)
    (hf : ∀ i ∈ xs, Spawns name view (f i) (children i)) :
    Spawns name view (forM xs f) (xs.map children).sum := by
  induction xs with
  | nil => exact spawns_pure ()
  | cons i xs ih =>
    rw [List.forM_cons, List.map_cons, List.sum_cons]
    refine (hf i List.mem_cons_self).bind fun _ _ => ?_
    exact ih fun i hi => hf i (List.mem_cons_of_mem _ hi)

/-- A callback that `then` has registered adds what its body adds for the value it gets. -/
theorem spawned_callThen [DecidableEq Ref] {source target : Ref}
    {body : Value source → Code (State Ref Value E Callback Task World) E (Option (Value target))}
    (hbody : ∀ v, s.outcome source = some (.ok v) → Spawns name view (body v) new) :
    Spawned name view new s (callThen source target body s) := by
  unfold callThen
  cases hsource : s.outcome source with
  | none => exact .refl
  | some r =>
    cases r with
    | error e => exact spawned_settle target _
    | ok v =>
      have hbody := hbody v hsource s
      dsimp only
      rcases hrun : (body v).run.run s with ⟨e | ⟨_ | w⟩, s'⟩
      · rw [hrun] at hbody
        exact hbody.settle target (.error e)
      · rw [hrun] at hbody
        exact hbody
      · rw [hrun] at hbody
        exact hbody.settle target (.ok w)

end

/-! ### Children -/

section

variable {Name V : Type}

/-- Calling a callback adds at most the children of its name to what is pending, and the end of a
task adds nothing, in every state with `I`. -/
structure Lineage (sys : System Ref Value E Callback Task World)
    (I : State Ref Value E Callback Task World → Prop) (name : Event Callback Task → Name)
    (children : Name → Multiset Name) : Prop where
  call : ∀ s c before after, I s → s.callbacks = before ++ c :: after →
    (s.outcome (sys.source c)).isSome →
    ∃ added ≤ children (name (.called c)),
      (sys.call c { s with callbacks := before ++ after }).pending name
        = State.pending name { s with callbacks := before ++ after } + added
  finish : ∀ s t before after, I s → s.tasks = before ++ t :: after →
    (sys.finish t { s with tasks := before ++ after }).pending name
      = State.pending name { s with tasks := before ++ after }

variable {sys : System Ref Value E Callback Task World}
  {I : State Ref Value E Callback Task World → Prop} {name : Event Callback Task → Name}
  {children : Name → Multiset Name} {s s₀ : State Ref Value E Callback Task World}
  {past : List (Event Callback Task)}

/-- A step takes one name out of what is pending, and adds children of it. -/
theorem Lineage.history_step {P : List (Event Callback Task) → Multiset Name → Prop}
    (hl : Lineage sys I name children) (hI : ∀ past s, sys.History s₀ past s → I s)
    (hstart : P [] (s₀.pending name))
    (hstep : ∀ past event rest added, added ≤ children (name event) →
      P past (name event ::ₘ rest) → P (past ++ [event]) (rest + added))
    (h : sys.History s₀ past s) : P past (s.pending name) := by
  induction h with
  | start => exact hstart
  | call h hcallbacks hsource ih =>
    obtain ⟨added, hle, hadded⟩ := hl.call _ _ _ _ (hI _ _ h) hcallbacks hsource
    rw [State.pending_take_callback hcallbacks] at ih
    rw [hadded]
    exact hstep _ _ _ added hle ih
  | finish h htasks ih =>
    rw [State.pending_take_task htasks] at ih
    rw [hl.finish _ _ _ _ (hI _ _ h) htasks, ← add_zero (State.pending name _)]
    exact hstep _ _ _ 0 (Multiset.zero_le _) ih

/-- What is pending at the start has happened, or is still pending. -/
theorem Lineage.mem_of_start (hl : Lineage sys I name children)
    (hI : ∀ past s, sys.History s₀ past s → I s) {n : Name} (hstart : n ∈ s₀.pending name)
    (h : sys.History s₀ past s) : n ∈ past.map name ∨ n ∈ s.pending name := by
  refine hl.history_step (P := fun past pending => n ∈ past.map name ∨ n ∈ pending) hI
    (.inr hstart) ?_ h
  intro past event rest added _ hold
  rw [List.map_append, List.mem_append]
  rcases hold with hpast | hpending
  · exact .inl (.inl hpast)
  · rcases Multiset.mem_cons.mp hpending with rfl | hrest
    · exact .inl (.inr (List.mem_singleton.mpr rfl))
    · exact .inr (Multiset.mem_add.mpr (.inl hrest))

/-- What holds of the names at the start and of all children holds of every name. -/
theorem Lineage.forall_pending (hl : Lineage sys I name children)
    (hI : ∀ past s, sys.History s₀ past s → I s) {P : Name → Prop}
    (hstart : ∀ n ∈ s₀.pending name, P n) (hchildren : ∀ n, ∀ child ∈ children n, P child)
    (h : sys.History s₀ past s) : ∀ n ∈ s.pending name, P n := by
  refine hl.history_step (P := fun _ pending => ∀ n ∈ pending, P n) hI hstart ?_ h
  intro past event rest added hle hold n hn
  rcases Multiset.mem_add.mp hn with hrest | hadded
  · exact hold n (Multiset.mem_cons_of_mem hrest)
  · exact hchildren _ n (Multiset.mem_of_le hle hadded)

/-- **Runs end**, where a name weighs more than its children together. -/
theorem Lineage.length_add_weight_le (hl : Lineage sys I name children)
    (hI : ∀ past s, sys.History s₀ past s → I s) (weight : Name → ℕ)
    (hweight : ∀ n, ((children n).map weight).sum < weight n) (h : sys.History s₀ past s) :
    past.length + ((s.pending name).map weight).sum ≤ ((s₀.pending name).map weight).sum := by
  refine hl.history_step (P := fun past pending =>
    past.length + (pending.map weight).sum ≤ ((s₀.pending name).map weight).sum) hI ?_ ?_ h
  · simp
  · intro past event rest added hle hold
    obtain ⟨others, hothers⟩ := Multiset.le_iff_exists_add.mp hle
    have hlt := hweight (name event)
    rw [hothers, Multiset.map_add, Multiset.sum_add] at hlt
    simp only [Multiset.map_cons, Multiset.sum_cons, Multiset.map_add, Multiset.sum_add,
      List.length_append, List.length_singleton] at hold ⊢
    omega

/-- **Nothing happens twice**, where every name is the child of one name only, which then has
happened before. -/
theorem Lineage.nodup (hl : Lineage sys I name children)
    (hI : ∀ past s, sys.History s₀ past s → I s) {parent : Name → Option Name}
    (hparent : ∀ n, ∀ child ∈ children n, parent child = some n)
    (hchildren : ∀ n, (children n).Nodup) (hstart : (s₀.pending name).Nodup)
    (hroot : ∀ n ∈ s₀.pending name, parent n = none) (h : sys.History s₀ past s) :
    (((past.map name : List Name) : Multiset Name) + s.pending name).Nodup
    ∧ ∀ n ∈ ((past.map name : List Name) : Multiset Name) + s.pending name, ∀ p,
      parent n = some p → p ∈ past.map name := by
  refine hl.history_step (P := fun past pending =>
    (((past.map name : List Name) : Multiset Name) + pending).Nodup
      ∧ ∀ n ∈ ((past.map name : List Name) : Multiset Name) + pending, ∀ p,
        parent n = some p → p ∈ past.map name) hI ?_ ?_ h
  · refine ⟨by simpa using hstart, fun n hn p hp => ?_⟩
    rw [hroot n (by simpa using hn)] at hp
    cases hp
  · rintro past event rest added hle ⟨hnodup, hknown⟩
    have hmove : (((past ++ [event]).map name : List Name) : Multiset Name) + (rest + added)
        = ((past.map name : List Name) : Multiset Name) + (name event ::ₘ rest) + added := by
      rw [List.map_append, ← Multiset.coe_add, add_assoc, add_assoc, ← Multiset.singleton_add,
        add_assoc]
      rfl
    rw [hmove]
    constructor
    · refine Multiset.nodup_add.mpr ⟨hnodup, Multiset.nodup_of_le hle (hchildren _), ?_⟩
      rw [Multiset.disjoint_left]
      intro n hn hadded
      -- a child that is there already has a parent that has happened, which happens only now
      have hmem := hknown n hn _ (hparent _ n (Multiset.mem_of_le hle hadded))
      exact Multiset.disjoint_left.mp (Multiset.nodup_add.mp hnodup).2.2 hmem
        (Multiset.mem_cons_self _ _)
    · intro n hn p hp
      rw [List.map_append]
      rcases Multiset.mem_add.mp hn with hold | hnew
      · exact List.mem_append_left _ (hknown n hold p hp)
      · rw [hparent _ n (Multiset.mem_of_le hle hnew)] at hp
        exact List.mem_append_right _ (by simpa using hp.symm)

end

end Promise
