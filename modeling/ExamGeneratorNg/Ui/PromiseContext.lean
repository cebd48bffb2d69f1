import ExamGeneratorNg.Effects
import ExamGeneratorNg.Promise.Basic
import Mathlib.Algebra.Order.Field.Rat

/-!
# `ui.util.PromiseContext`

A `PromiseContext` counts the tasks that are supplied to it (`workTotal`) and those of them that
have succeeded (`workDone`), and keeps the exception of the last one that failed.  The counters
are `double` properties in the source, and exact at the sizes they can have.
-/

namespace ExamGeneratorNg

open Promise Stateful

/-- The properties of a `PromiseContext`. -/
structure PromiseContext where
  workDone : ℕ
  workTotal : ℕ
  exception : Option JavaException
deriving DecidableEq, Repr

namespace PromiseContext

def getProgress (context : PromiseContext) : ℚ := context.workDone / context.workTotal

def getException (context : PromiseContext) : Option JavaException := context.exception

end PromiseContext

/-- What a program with a `PromiseContext` keeps beside its promises: the context, and the effects
its tasks have had. -/
structure TaskWorld where
  promiseContext : PromiseContext
  effects : List Effect

section

variable {Ref : Type} {Value : Ref → Type} {Callback Task : Type}

/-- The state of a program with a `PromiseContext`. -/
abbrev ContextState (Ref : Type) (Value : Ref → Type) (Callback Task : Type) :=
  State Ref Value JavaException Callback Task TaskWorld

namespace ContextState

/-- The state after its `PromiseContext` was changed. -/
def mapContext (s : ContextState Ref Value Callback Task)
    (f : PromiseContext → PromiseContext) : ContextState Ref Value Callback Task :=
  { s with world := { s.world with promiseContext := f s.world.promiseContext } }

/-- The state after effects of a task. -/
def addEffects (s : ContextState Ref Value Callback Task) (effects : List Effect) :
    ContextState Ref Value Callback Task :=
  { s with world := { s.world with effects := s.world.effects ++ effects } }

/-- `workDone.set(workDone.get() + 1.0)`, the callback that `supplyAsync` passes to `thenRun`. -/
def callWorkDone (ref : Ref) (s : ContextState Ref Value Callback Task) :
    ContextState Ref Value Callback Task :=
  match s.outcome ref with
  | some (.ok _) => s.mapContext fun context => { context with workDone := context.workDone + 1 }
  | _ => s

/-- `exception::set`, the callback that `supplyAsync` passes to `onExceptionAccept`. -/
def callException (ref : Ref) (s : ContextState Ref Value Callback Task) :
    ContextState Ref Value Callback Task :=
  match s.outcome ref with
  | some (.error e) => s.mapContext fun context => { context with exception := some e }
  | _ => s

variable (promise : Task → Ref) (workDone exception : Ref → Callback)

/-- What `supplyAsync` changes. -/
def supply (task : Task) (s : ContextState Ref Value Callback Task) :
    ContextState Ref Value Callback Task :=
  let s := s.mapContext fun context => { context with workTotal := context.workTotal + 1 }
  let s := s.start task
  let s := s.register (workDone (promise task))
  s.register (exception (promise task))

/-- `supplyAsync`; the promise it returns is the one the task settles. -/
def supplyAsync (task : Task) : Code (ContextState Ref Value Callback Task) JavaException Unit := do
  let s ← get
  liftExcept (checkState s.world.promiseContext.getException.isNone)
  modify (supply promise workDone exception task)

/-! ### What these do -/

variable (s : ContextState Ref Value Callback Task)

@[simp] theorem mapContext_outcome (f : PromiseContext → PromiseContext) :
    (s.mapContext f).outcome = s.outcome := rfl

@[simp] theorem mapContext_callbacks (f : PromiseContext → PromiseContext) :
    (s.mapContext f).callbacks = s.callbacks := rfl

@[simp] theorem mapContext_tasks (f : PromiseContext → PromiseContext) :
    (s.mapContext f).tasks = s.tasks := rfl

/-- A success is counted; otherwise there is nothing to do. -/
theorem callWorkDone_cases (ref : Ref) :
    callWorkDone ref s = s ∨ callWorkDone ref s
      = s.mapContext fun context => { context with workDone := context.workDone + 1 } := by
  unfold callWorkDone
  split
  · exact .inr rfl
  · exact .inl rfl

/-- The exception of a failure is kept; otherwise there is nothing to do. -/
theorem callException_cases (ref : Ref) :
    callException ref s = s ∨ ∃ e, callException ref s
      = s.mapContext fun context => { context with exception := some e } := by
  unfold callException
  split
  · exact .inr ⟨_, rfl⟩
  · exact .inl rfl

variable (task : Task)

@[simp] theorem supply_outcome :
    (supply promise workDone exception task s).outcome = s.outcome := rfl

@[simp] theorem supply_callbacks :
    (supply promise workDone exception task s).callbacks
      = s.callbacks ++ [workDone (promise task), exception (promise task)] :=
  List.append_assoc _ _ _

@[simp] theorem supply_tasks :
    (supply promise workDone exception task s).tasks = s.tasks ++ [task] := rfl

end ContextState

end

end ExamGeneratorNg
