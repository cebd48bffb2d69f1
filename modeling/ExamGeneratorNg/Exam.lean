import ExamGeneratorNg.LineTemplate
import ExamGeneratorNg.Util.MapUtils

/-!
# Exams and what they are made of
-/

namespace ExamGeneratorNg

/-- `ExamVariant`. -/
inductive ExamVariant
  | student
  | teacher
deriving DecidableEq, Repr

/-- `variant.name()`. -/
def ExamVariant.name : ExamVariant → JString
  | student => jstr "STUDENT"
  | teacher => jstr "TEACHER"

/-- `ProcessOutput`: what a finished process has written, and its exit status. -/
structure ProcessOutput where
  standardOutput : List JString
  errorOutput : List JString
  status : ℤ
deriving DecidableEq, Repr

def ProcessOutput.getDiagnostics (processOutput : ProcessOutput) : List JString :=
  processOutput.standardOutput ++ processOutput.errorOutput

/-- `ProgramOutput`. -/
structure ProgramOutput where
  standardOutput : List JString
  errorOutput : List JString
deriving DecidableEq, Repr

/-- `new ProgramOutput(processOutput)`. -/
def ProgramOutput.ofProcessOutput (processOutput : ProcessOutput) : ProgramOutput :=
  ⟨processOutput.standardOutput, processOutput.errorOutput⟩

/-- `EvaluatedProgramTemplate`: a program and what it has written. -/
structure EvaluatedProgramTemplate where
  programTemplate : ProgramTemplate
  programOutput : ProgramOutput
deriving DecidableEq, Repr

/-- `ExamProgram`: a program as it is shown in an exam. -/
structure ExamProgram where
  source : LineString
  output : LineString
deriving DecidableEq, Repr

def ExamProgram.emptyExamProgram : Except JavaException ExamProgram := do
  let source ← LineString.fromSingleLine []
  let output ← LineString.fromSingleLine []
  pure ⟨source, output⟩

/-- `Exam`. -/
structure Exam where
  group : JString
  examProgramMap : JMap ProgramId ExamProgram

end ExamGeneratorNg
