import Mathlib.Data.Nat.Notation
import Mathlib.Order.Basic

/-!
# Transition systems

Systems of several parties that act one at a time, in any order.  A step is a function to
`Option`: an action that is not possible in a state leads nowhere.

* `Leads.invariant`: what every step preserves is preserved by every run.
* `exists_leads_stuck`: a system in which something grows smaller with every step runs until
  nothing can happen any more.
* `DeadlockFree.mayEnd_of_stuck`: a state in which a run gets stuck is one the system was meant to
  end in, if it has no deadlock.
-/

namespace Transition

/-- A system, by what its actions do to its state. -/
structure System (State Action : Type*) where
  next : Action → State → Option State

namespace System

variable {State Action : Type*} (sys : System State Action)

/-- The state after a list of actions, if they are possible one after another. -/
def run : List Action → State → Option State
  | [], s => some s
  | action :: actions, s => (sys.next action s).bind (run actions)

/-- Some run leads from the first state to the second. -/
def Leads (s s' : State) : Prop := ∃ actions, sys.run actions s = some s'

/-- Nothing can happen any more. -/
def Stuck (s : State) : Prop := ∀ action, sys.next action s = none

/-- From `s` on, some action is possible in every state but those where the system may end. -/
def DeadlockFree (mayEnd : State → Prop) (s : State) : Prop :=
  ∀ s', sys.Leads s s' → ¬ mayEnd s' → ∃ action s'', sys.next action s' = some s''

/-- The state after some turns, in each of which the first action of a list takes place that is
possible, if any is. -/
def runTurns : List (State → List Action) → State → State
  | [], s => s
  | turn :: turns, s =>
    runTurns turns (((turn s).findSome? fun action => sys.next action s).getD s)

variable {sys} {s s' s'' : State}

theorem run_cons_eq_some {action : Action} {actions : List Action} :
    sys.run (action :: actions) s = some s'' ↔
      ∃ s', sys.next action s = some s' ∧ sys.run actions s' = some s'' :=
  Option.bind_eq_some_iff

theorem Leads.refl : sys.Leads s s := ⟨[], rfl⟩

theorem Leads.head {action : Action} (hstep : sys.next action s = some s')
    (h : sys.Leads s' s'') : sys.Leads s s'' := by
  obtain ⟨actions, hrun⟩ := h
  exact ⟨action :: actions, run_cons_eq_some.mpr ⟨s', hstep, hrun⟩⟩

theorem Leads.trans (h : sys.Leads s s') (h' : sys.Leads s' s'') : sys.Leads s s'' := by
  obtain ⟨actions, hrun⟩ := h
  induction actions generalizing s with
  | nil =>
    obtain rfl : s = s' := Option.some.inj hrun
    exact h'
  | cons action actions ih =>
    obtain ⟨s₁, hstep, hrun⟩ := run_cons_eq_some.mp hrun
    exact Leads.head hstep (ih hrun)

theorem leads_runTurns (turns : List (State → List Action)) (s : State) :
    sys.Leads s (sys.runTurns turns s) := by
  induction turns generalizing s with
  | nil => exact Leads.refl
  | cons turn turns ih =>
    unfold runTurns
    cases hfind : (turn s).findSome? fun action => sys.next action s with
    | none => exact ih s
    | some s' =>
      obtain ⟨action, -, hstep⟩ := List.exists_of_findSome?_eq_some hfind
      exact Leads.head hstep (ih s')

/-- **The invariant rule**: what every step preserves holds along every run. -/
theorem Leads.invariant {I : State → Prop}
    (hstep : ∀ action s s', I s → sys.next action s = some s' → I s')
    (h : sys.Leads s s') (hs : I s) : I s' := by
  obtain ⟨actions, hrun⟩ := h
  induction actions generalizing s with
  | nil =>
    obtain rfl : s = s' := Option.some.inj hrun
    exact hs
  | cons action actions ih =>
    obtain ⟨s₁, hnext, hrun⟩ := run_cons_eq_some.mp hrun
    exact ih (hstep action s s₁ hs hnext) hrun

/-- A run of a system in which `measure` falls with every step is no longer than the measure. -/
theorem length_add_le {measure : State → ℕ}
    (hfalls : ∀ action s s', sys.next action s = some s' → measure s' < measure s)
    {actions : List Action} (hrun : sys.run actions s = some s') :
    actions.length + measure s' ≤ measure s := by
  induction actions generalizing s with
  | nil =>
    obtain rfl : s = s' := Option.some.inj hrun
    exact Nat.le_of_eq (Nat.zero_add _)
  | cons action actions ih =>
    obtain ⟨s₁, hnext, hrun⟩ := run_cons_eq_some.mp hrun
    have hlt := hfalls action s s₁ hnext
    have hle := ih hrun
    rw [List.length_cons]
    omega

/-- A system in which `measure` falls with every step runs until nothing can happen any more. -/
theorem exists_leads_stuck {measure : State → ℕ}
    (hfalls : ∀ action s s', sys.next action s = some s' → measure s' < measure s) (s : State) :
    ∃ s', sys.Leads s s' ∧ sys.Stuck s' := by
  induction hn : measure s using Nat.strongRecOn generalizing s with
  | ind n ih =>
    by_cases hstuck : sys.Stuck s
    · exact ⟨s, Leads.refl, hstuck⟩
    · obtain ⟨action, haction⟩ := not_forall.mp hstuck
      obtain ⟨s', hstep⟩ := Option.ne_none_iff_exists'.mp haction
      obtain ⟨s'', hleads, hend⟩ := ih (measure s') (hn ▸ hfalls action s s' hstep) s' rfl
      exact ⟨s'', Leads.head hstep hleads, hend⟩

/-- Without a deadlock, a run that is stuck has come to an end that is allowed. -/
theorem DeadlockFree.mayEnd_of_stuck {mayEnd : State → Prop} (h : sys.DeadlockFree mayEnd s)
    (hleads : sys.Leads s s') (hstuck : sys.Stuck s') : mayEnd s' := by
  by_contra hend
  obtain ⟨action, s'', hstep⟩ := h s' hleads hend
  rw [hstuck action] at hstep
  cases hstep

end System

end Transition
