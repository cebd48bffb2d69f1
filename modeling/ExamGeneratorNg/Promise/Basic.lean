import ExamGeneratorNg.Stateful.Basic
import Mathlib.Data.Nat.Notation
import Mathlib.Logic.Function.Basic

/-!
# Promises

Programs made of promises: tasks run in the background, each settles a promise when it ends, and
callbacks that were registered on a promise are called one at a time after it is settled.

Promises have names (`Ref`), with a type of values for each, and callbacks and tasks are data of
the program.  A `System` says what calling a callback and ending a task does.  Nothing is assumed
of the order in which tasks end and callbacks are called, except that the callbacks of one promise
are called in the order of their registration.
-/

namespace Promise

open Stateful (Code)

/-! ### States -/

/-- The state of a program made of promises. -/
structure State (Ref : Type) (Value : Ref → Type) (E Callback Task World : Type) where
  /-- how the promises that are settled have ended -/
  outcome : (ref : Ref) → Option (Except E (Value ref))
  /-- the callbacks that have not been called, in the order of their registration -/
  callbacks : List Callback
  /-- the tasks that have not ended -/
  tasks : List Task
  /-- everything else -/
  world : World

variable {Ref : Type} [DecidableEq Ref] {Value : Ref → Type} {E Callback Task World : Type}

namespace State

/-- Settle a promise.  A promise is settled once. -/
def settle (s : State Ref Value E Callback Task World) (ref : Ref) (r : Except E (Value ref)) :
    State Ref Value E Callback Task World :=
  match s.outcome ref with
  | some _ => s
  | none => { s with outcome := Function.update s.outcome ref (some r) }

/-- Register a callback. -/
def register (s : State Ref Value E Callback Task World) (c : Callback) :
    State Ref Value E Callback Task World :=
  { s with callbacks := s.callbacks ++ [c] }

/-- Register several callbacks at once. -/
def registerAll (s : State Ref Value E Callback Task World) (cs : List Callback) :
    State Ref Value E Callback Task World :=
  { s with callbacks := s.callbacks ++ cs }

/-- Start a task. -/
def start (s : State Ref Value E Callback Task World) (t : Task) :
    State Ref Value E Callback Task World :=
  { s with tasks := s.tasks ++ [t] }

end State

/-! ### The code of callbacks -/

/-- The end of the body of a callback: it has thrown, it has left the promise `target` to another
callback, or it has a value to resolve `target` with. -/
def endThen (target : Ref) :
    Except E (Option (Value target)) × State Ref Value E Callback Task World →
      State Ref Value E Callback Task World
  | (.error e, s) => s.settle target (.error e)
  | (.ok none, s) => s
  | (.ok (some w), s) => s.settle target (.ok w)

/-- The callback that `source.then(body)` registers, where `then` has returned the promise
`target`.  It rejects `target` if `source` is rejected or the body throws. -/
def callThen (source target : Ref)
    (body : Value source →
      Code (State Ref Value E Callback Task World) E (Option (Value target)))
    (s : State Ref Value E Callback Task World) : State Ref Value E Callback Task World :=
  match s.outcome source with
  | none => s
  | some (.error e) => s.settle target (.error e)
  | some (.ok v) => endThen target ((body v).run.run s)

/-! ### Systems and their runs -/

/-- A program made of promises. -/
structure System (Ref : Type) (Value : Ref → Type) (E Callback Task World : Type) where
  /-- the promise that a callback is registered on -/
  source : Callback → Ref
  /-- the promise that depends on a callback -/
  target : Callback → Option Ref
  /-- the promise that a task settles -/
  promise : Task → Ref
  /-- calling a callback that has just been taken out of the state -/
  call : Callback → State Ref Value E Callback Task World → State Ref Value E Callback Task World
  /-- the end of a task that has just been taken out of the state -/
  finish : Task → State Ref Value E Callback Task World → State Ref Value E Callback Task World

/-- What may happen next. -/
inductive Action (Ref : Type)
  /-- the first callback of a promise that is settled is called -/
  | callback (ref : Ref)
  /-- the task of a promise ends -/
  | task (ref : Ref)
deriving DecidableEq, Repr

namespace System

variable (sys : System Ref Value E Callback Task World)

/-- The state after an action, if it is possible. -/
def next (s : State Ref Value E Callback Task World) :
    Action Ref → Option (State Ref Value E Callback Task World)
  | .callback ref =>
    match s.outcome ref, s.callbacks.find? fun c => sys.source c = ref with
    | some _, some c =>
      some (sys.call c { s with callbacks := s.callbacks.eraseP fun c => sys.source c = ref })
    | _, _ => none
  | .task ref =>
    match s.tasks.find? fun t => sys.promise t = ref with
    | some t => some (sys.finish t { s with tasks := s.tasks.eraseP fun t => sys.promise t = ref })
    | none => none

/-- The state after a list of actions, if they are possible one after another. -/
def run (s : State Ref Value E Callback Task World) (actions : List (Action Ref)) :
    Option (State Ref Value E Callback Task World) :=
  actions.foldlM sys.next s

/-- Some run leads from the first state to the second. -/
def Reachable (s s' : State Ref Value E Callback Task World) : Prop :=
  ∃ actions, sys.run s actions = some s'

/-- No task is running and no callback can be called. -/
def Quiescent (s : State Ref Value E Callback Task World) : Prop :=
  s.tasks = [] ∧ ∀ c ∈ s.callbacks, s.outcome (sys.source c) = none

instance (s : State Ref Value E Callback Task World) : Decidable (sys.Quiescent s) :=
  inferInstanceAs (Decidable (s.tasks = [] ∧ ∀ c ∈ s.callbacks, s.outcome (sys.source c) = none))

/-- The state after at most `n` actions, each the first that is possible: tasks end as soon as
they are started, and callbacks are called in the order of their registration. -/
def runFirst : ℕ → State Ref Value E Callback Task World → State Ref Value E Callback Task World
  | 0, s => s
  | n + 1, s =>
    let actions := (s.tasks.map fun t => Action.task (sys.promise t))
      ++ s.callbacks.map fun c => Action.callback (sys.source c)
    match actions.findSome? (sys.next s) with
    | some s' => runFirst n s'
    | none => s

/-- Something is on its way that will settle the promise: the promise is settled, or its task is
running, or a callback that it depends on is waiting.  While a callback is being called, the
promise that depends on it is the `hole`: it is being taken care of. -/
def Live (hole : Option Ref) (s : State Ref Value E Callback Task World) (ref : Ref) : Prop :=
  hole = some ref ∨ (s.outcome ref).isSome ∨ (∃ t ∈ s.tasks, sys.promise t = ref)
    ∨ ∃ c ∈ s.callbacks, sys.target c = some ref

end System

end Promise
