import ExamGeneratorNg.Exam
import ExamGeneratorNg.Transition.Basic

/-!
# `util.ProcessUtils`

`execute`, the child process it has started, and the two pipes between them.

Of the operating system it is assumed that a pipe holds at most `capacity` bytes, that a write
blocks while the pipe is full, that `waitFor` returns only after the child has exited, and that
what is left in a pipe can still be read then.  The child is given by the writes it makes before
it exits, and by its exit status.
-/

namespace ExamGeneratorNg

open Transition

/-- The streams a process writes to. -/
inductive OutputStream
  | standardOutput
  | errorOutput
deriving DecidableEq, Repr

/-- A write of a process. -/
structure Write where
  stream : OutputStream
  data : List UInt8
deriving DecidableEq, Repr

/-- The statements of `execute` behind the start of the process. -/
inductive Statement
  /-- `process.waitFor()` -/
  | waitFor
  /-- `IOUtils.readLines` of a stream -/
  | readLines (stream : OutputStream)
deriving DecidableEq, Repr

/-- A run of `execute`. -/
structure Execution where
  /-- the statements that have not ended -/
  statements : List Statement
  /-- what `waitFor` has returned -/
  status : Option ℤ
  /-- what has been read of the streams -/
  received : OutputStream → List UInt8
  /-- what has been written to the streams and not been read -/
  pipe : OutputStream → List UInt8
  /-- what the child has still to write -/
  writes : List Write
  /-- whether the child has exited -/
  exited : Bool

namespace Execution

/-- A child has been started. -/
def start (writes : List Write) : Execution where
  statements := [.waitFor, .readLines .standardOutput, .readLines .errorOutput]
  status := none
  received := fun _ => []
  pipe := fun _ => []
  writes := writes
  exited := false

/-- A step of the child: it writes a byte, returns from a write, or exits. -/
def stepChild (capacity : ℕ) (s : Execution) : Option Execution :=
  match s.writes with
  | [] => if s.exited then none else some { s with exited := true }
  | ⟨_, []⟩ :: writes => some { s with writes := writes }
  | ⟨stream, byte :: data⟩ :: writes =>
    if (s.pipe stream).length < capacity then
      some { s with
        pipe := Function.update s.pipe stream (s.pipe stream ++ [byte])
        writes := ⟨stream, data⟩ :: writes }
    else none

/-- A step of `execute`: it returns from `waitFor`, reads a byte, or comes to the end of a
stream. -/
def stepExecute (status : ℤ) (s : Execution) : Option Execution :=
  match s.statements with
  | [] => none
  | .waitFor :: statements =>
    if s.exited then some { s with statements := statements, status := some status } else none
  | .readLines stream :: statements =>
    match s.pipe stream with
    | byte :: data =>
      some { s with
        pipe := Function.update s.pipe stream data
        received := Function.update s.received stream (s.received stream ++ [byte]) }
    | [] => if s.exited then some { s with statements := statements } else none

/-- What `execute` returns, when it has returned; `readLines` is how bytes are split into lines
of UTF-8. -/
def output (readLines : List UInt8 → List JString) (s : Execution) : Option ProcessOutput :=
  match s.statements, s.status with
  | [], some status =>
    some ⟨readLines (s.received .standardOutput), readLines (s.received .errorOutput), status⟩
  | _, _ => none

end Execution

/-- Who can take a step. -/
inductive Party
  | child
  | execute
deriving DecidableEq, Repr

/-- `execute`, the child and the pipes. -/
def executeSystem (capacity : ℕ) (status : ℤ) : System Execution Party where
  next
    | .child => Execution.stepChild capacity
    | .execute => Execution.stepExecute status

end ExamGeneratorNg
