import Mathlib.Data.List.Basic

/-!
# Code with a state and exceptions

`Code` is code that changes a state and may throw; an exception does not undo what was changed
before.  `Triple` says what code does, and the rules below follow the shape of the code.
-/

namespace Stateful

/-- Code that changes a state and may throw; what it has changed before stays changed. -/
abbrev Code (σ E : Type) := ExceptT E (StateM σ)

variable {σ E α β : Type}

/-- What comes after code that throws is not done. -/
theorem run_bind (x : Code σ E α) (f : α → Code σ E β) (s : σ) :
    (x >>= f).run.run s
      = match x.run.run s with
        | (.ok a, s') => (f a).run.run s'
        | (.error e, s') => (.error e, s') := by
  simp only [ExceptT.run_bind, StateT.run_bind]
  rcases x.run.run s with ⟨_ | _, _⟩ <;> rfl

/-! ### Specifications -/

/-- The code `x`, started in a state with `P`, ends with a value and a state with `Q`, or throws
in a state with `R`. -/
def Triple (P : σ → Prop) (x : Code σ E α) (Q : α → σ → Prop) (R : σ → Prop) : Prop :=
  ∀ s, P s →
    match x.run.run s with
    | (.ok a, s') => Q a s'
    | (.error _, s') => R s'

variable {P P' : σ → Prop} {Q Q' : α → σ → Prop} {R : σ → Prop}

theorem triple_pure (a : α) (h : ∀ s, P s → Q a s) : Triple P (pure a : Code σ E α) Q R := by
  intro s hs
  exact h s hs

theorem triple_throw (e : E) (h : ∀ s, P s → R s) : Triple P (throw e : Code σ E α) Q R := by
  intro s hs
  exact h s hs

theorem triple_modify (f : σ → σ) {Q : Unit → σ → Prop} (h : ∀ s, P s → Q () (f s)) :
    Triple P (modify f : Code σ E Unit) Q R := by
  intro s hs
  exact h s hs

theorem triple_get {Q : σ → σ → Prop} (h : ∀ s, P s → Q s s) :
    Triple P (get : Code σ E σ) Q R := by
  intro s hs
  exact h s hs

theorem triple_bind {x : Code σ E α} {f : α → Code σ E β} {S : β → σ → Prop}
    (hx : Triple P x Q R) (hf : ∀ a, Triple (Q a) (f a) S R) : Triple P (x >>= f) S R := by
  intro s hs
  have hx := hx s hs
  rw [run_bind]
  rcases hrun : x.run.run s with ⟨e | a, s'⟩
  · rw [hrun] at hx
    exact hx
  · rw [hrun] at hx
    exact hf a s' hx

theorem triple_weaken {x : Code σ E α} (hP : ∀ s, P' s → P s) (hQ : ∀ a s, Q a s → Q' a s)
    (h : Triple P x Q R) : Triple P' x Q' R := by
  intro s hs
  have h := h s (hP s hs)
  split at h
  · exact hQ _ _ h
  · exact h

theorem triple_map {x : Code σ E α} (f : α → β) {S : β → σ → Prop} (h : Triple P x Q R)
    (hS : ∀ a s, Q a s → S (f a) s) : Triple P (f <$> x) S R := by
  rw [map_eq_pure_bind]
  exact triple_bind h fun a => triple_pure _ (hS a)

/-- A computation without effects of its own. -/
theorem triple_liftExcept (x : Except E α) (hok : ∀ a, x = .ok a → ∀ s, P s → Q a s)
    (herror : ∀ e, x = .error e → ∀ s, P s → R s) :
    Triple P (liftExcept x : Code σ E α) Q R := by
  cases x with
  | ok a => exact triple_pure a (hok a rfl)
  | error e => exact triple_throw e (herror e rfl)

/-- A loop, with an invariant about the elements that have been passed. -/
theorem triple_foldlM {ι : Type} {I : List ι → β → σ → Prop} {f : β → ι → Code σ E β}
    (xs : List ι) (h : ∀ passed b, ∀ x ∈ xs, Triple (I passed b) (f b x)
      (fun b' => I (passed ++ [x]) b') R) (b : β) :
    Triple (I [] b) (xs.foldlM f b) (fun b' => I xs b') R := by
  -- by induction on what is still to be passed
  have hloop : ∀ (todo passed : List ι), todo ⊆ xs → ∀ b,
      Triple (I passed b) (todo.foldlM f b) (fun b' => I (passed ++ todo) b') R := by
    intro todo
    induction todo with
    | nil =>
      intro passed _ b
      rw [List.append_nil]
      exact triple_pure b fun _ hs => hs
    | cons x todo ih =>
      intro passed hsubset b
      have hx := List.cons_subset.mp hsubset
      rw [List.foldlM_cons]
      refine triple_bind (h passed b x hx.1) fun b' => ?_
      have hrest := ih (passed ++ [x]) hx.2 b'
      rwa [List.append_assoc] at hrest
  exact hloop xs [] (List.Subset.refl xs) b

theorem triple_forM {ι : Type} {I : List ι → σ → Prop} {f : ι → Code σ E Unit} {xs : List ι}
    (h : ∀ passed, ∀ x ∈ xs, Triple (I passed) (f x) (fun _ => I (passed ++ [x])) R) :
    Triple (I []) (forM xs f) (fun _ => I xs) R := by
  have hloop : ∀ (todo passed : List ι), todo ⊆ xs →
      Triple (I passed) (forM todo f) (fun _ => I (passed ++ todo)) R := by
    intro todo
    induction todo with
    | nil =>
      intro passed _
      rw [List.append_nil]
      exact triple_pure () fun _ hs => hs
    | cons x todo ih =>
      intro passed hsubset
      have hx := List.cons_subset.mp hsubset
      rw [List.forM_cons]
      refine triple_bind (h passed x hx.1) fun _ => ?_
      have hrest := ih (passed ++ [x]) hx.2
      rwa [List.append_assoc] at hrest
  exact hloop xs [] (List.Subset.refl xs)

/-- A fact that does not depend on the state can be used outside. -/
theorem triple_and {p : Prop} {x : Code σ E α} (h : p → Triple P x Q R) :
    Triple (fun s => p ∧ P s) x Q R :=
  fun s hs => h hs.1 s hs.2

end Stateful
