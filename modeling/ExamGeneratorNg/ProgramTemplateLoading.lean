import ExamGeneratorNg.Effects
import ExamGeneratorNg.LineTemplateParsing
import ExamGeneratorNg.Placeholder

/-!
# Loading of program templates

`ProgramTemplateLoading`: the sources `01.cpp`, `02.cpp`, … of the workspace, up to the first one
that cannot be read.
-/

namespace ExamGeneratorNg

/-- `MAX_CODE_TEMPLATES_COUNT`. -/
def maxCodeTemplatesCount : ℕ := 20

variable (env : Environment)

def loadProgramTemplate (codeTemplatePath : JString) : Except JavaException ProgramTemplate := do
  let programTemplateStr ← env.readWholeFile codeTemplatePath
  parseProgramTemplate programTemplateStr

/-- The loop of `loadProgramTemplates`, with `n` more indices to go from `i` on. -/
def loadProgramTemplatesFrom :
    ℕ → ℕ → JMap ProgramId ProgramTemplate → Except JavaException (JMap ProgramId ProgramTemplate)
  | _, 0, programTemplates => pure programTemplates
  | i, n + 1, programTemplates =>
    let programId := ProgramId.fromIndex i
    let programTemplatePath := format02d programId.id ++ jstr ".cpp"
    match loadProgramTemplate env programTemplatePath with
    | .ok programTemplate =>
      loadProgramTemplatesFrom (i + 1) n (programTemplates.insert programId programTemplate)
    -- `UncheckedIOException`
    | .error .ioException => pure programTemplates
    | .error e => throw e

def loadProgramTemplates : Except JavaException (JMap ProgramId ProgramTemplate) :=
  loadProgramTemplatesFrom env 0 maxCodeTemplatesCount ∅

end ExamGeneratorNg
