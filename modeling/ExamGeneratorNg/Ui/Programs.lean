import ExamGeneratorNg.Ui.ProjectTask

/-!
# The programs and the diagnostics that a `ProjectTask` shows

`ProjectTask.getPrograms`, on the values of the observables that `promiseToObservableValue` makes of
promises.  An observable has no value (`null`) until its promise is resolved and the callback that
sets it has been called.
-/

namespace ExamGeneratorNg.Ui

/-- `ui.model.GroupProgram`, with the values of its observables. -/
structure GroupProgram where
  programId : ProgramId
  programTemplate : ProgramTemplate
  sourceCode : JString
  stdout : JString
  stderr : JString
deriving DecidableEq, Repr

/-- `ui.model.Program`. -/
structure Program where
  programId : ProgramId
  groupPrograms : JMap Group GroupProgram

/-- The values of the observables that are made of the promises of a task; a process output has two
observables, which need not be set at the same time. -/
structure Observables where
  programPipelineMap : Option (JMap ProgramId ProgramPipeline)
  stdout : ProgramId × Group → Option ProcessOutput
  stderr : ProgramId × Group → Option ProcessOutput

variable (observables : Observables)

def buildGroupProgram (programId : ProgramId) (programTemplate : ProgramTemplate) (group : Group)
    (processOutput : ProgramId × Group) : GroupProgram :=
  let realizedProgramTemplate := realizeProgramTemplate programTemplate .compiler group
  let stdout :=
    ((observables.stdout processOutput).map fun y => joinLines y.standardOutput).getD (jstr "")
  let stderr :=
    ((observables.stderr processOutput).map fun y => joinLines y.errorOutput).getD (jstr "")
  ⟨programId, programTemplate, joinLines realizedProgramTemplate.lines, stdout, stderr⟩

def buildProgram (programId : ProgramId) (programPipeline : ProgramPipeline) : Program :=
  ⟨programId, mapMapByEntry programPipeline.groupPipelineMap fun entry =>
    buildGroupProgram observables programId programPipeline.programTemplate entry.1
      entry.2.processOutput⟩

def getPrograms : List Program :=
  (observables.programPipelineMap.map fun programPipelineMap =>
    (programPipelineMap.entries.mergeSort fun e e' => e.1.id ≤ e'.1.id).map fun entry =>
      buildProgram observables entry.1 entry.2).getD []

/-! ### Diagnostics -/

/-- The diagnostics among the effects, in their order. -/
def diagnosticsOf (effects : List Effect) : List Diagnostic :=
  effects.filterMap fun effect =>
    match effect with
    | .diagnostic diagnostic => some diagnostic
    | _ => none

/-- `ProjectTask.getDiagnostics`, once all that `Platform.runLater` was given has been run. -/
def getDiagnostics (s : TaskState) : List Diagnostic := diagnosticsOf s.world.effects

end ExamGeneratorNg.Ui
