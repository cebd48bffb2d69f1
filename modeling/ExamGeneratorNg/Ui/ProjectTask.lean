import ExamGeneratorNg.ExamGeneration
import ExamGeneratorNg.Ui.PromiseContext

/-!
# `ui.model.ProjectTask`

The way from a workspace to all exam documents that the graphical interface takes: a graph of
promises, one part of it for each program and group.

A promise is named by the place in the source where it is created, and by the program and the
group there.  The lambdas given to `then` and to `supplyAsync` are the constructors of `Callback`
and `Supplier`, with what they capture; `call` and `runSupplier` are their bodies.
-/

namespace ExamGeneratorNg

open Promise Stateful

/-! ### Promises and their values -/

/-- The promises of a task. -/
inductive PromiseRef
  /-- `programTemplatesPromise` -/
  | programTemplates
  /-- `programPipeplinesPromise` -/
  | programPipelines
  /-- a value of `examPipelines` -/
  | examPipeline (group : Group)
  /-- `compilerOutputPromise` -/
  | compilerOutput (programId : ProgramId) (group : Group)
  /-- `supplyAsync(() -> runProgram(…))` -/
  | runOutput (programId : ProgramId) (group : Group)
  /-- `processOutput` -/
  | processOutput (programId : ProgramId) (group : Group)
  /-- an element of `entryPromises` in `PromiseUtils.all` -/
  | entry (group : Group) (key : ProgramId)
  /-- `factory.all(entryPromises)` in `PromiseUtils.all` -/
  | entries (group : Group)
  /-- what `PromiseUtils.all` returns -/
  | processOutputs (group : Group)
  /-- `supplyAsync(() -> { … generateExamVariantsForGroup(…) … })` -/
  | documents (group : Group)
  /-- `documentsGeneratedPromise` -/
  | documentsGenerated (group : Group)
deriving DecidableEq, Repr

/-- `ProjectTask.GroupPipeline`.  Its promises are those of a program and a group. -/
structure GroupPipeline where
  programTemplate : ProgramTemplate
  compilerOutput : ProgramId × Group
  processOutput : ProgramId × Group

/-- `ProjectTask.ProgramPipeline`. -/
structure ProgramPipeline where
  programTemplate : ProgramTemplate
  groupPipelineMap : JMap Group GroupPipeline

/-- `ProjectTask.ExamPipeline`.  Its promise is that of a group. -/
structure ExamPipeline where
  documentsGenerated : Group

/-- What a promise is resolved with; a process output may be `null`. -/
abbrev PromiseRef.Value : PromiseRef → Type
  | programTemplates => JMap ProgramId ProgramTemplate
  | programPipelines => JMap ProgramId ProgramPipeline
  | examPipeline _ => ExamPipeline
  | compilerOutput _ _ => CompilerOutput
  | runOutput _ _ => Option ProcessOutput
  | processOutput _ _ => Option ProcessOutput
  | entry _ _ => Entry ProgramId (Option ProcessOutput)
  | entries _ => List (Entry ProgramId (Option ProcessOutput))
  | processOutputs _ => JMap ProgramId ProcessOutput
  | documents _ => Unit
  | documentsGenerated _ => Unit

/-! ### Callbacks and suppliers -/

/-- The callbacks of a task. -/
inductive Callback
  /-- counts a supplied task that has succeeded -/
  | workDone (ref : PromiseRef)
  /-- keeps the exception of a supplied task that has failed -/
  | exception (ref : PromiseRef)
  /-- `programTemplates -> …` -/
  | programPipelines
  /-- `programPipelines -> …` -/
  | examPipeline (group : Group)
  /-- `compilerOutput -> supplyAsync(…)` -/
  | runProgram (programId : ProgramId) (group : Group)
  /-- `processOutput` ends as the promise ends that its callback has returned -/
  | runOutput (programId : ProgramId) (group : Group)
  /-- `value -> …` in `PromiseUtils.all` -/
  | entry (group : Group) (key : ProgramId) (valuePromise : ProgramId × Group)
  /-- `factory.all` waits for each of its promises -/
  | collect (group : Group) (keys : List ProgramId) (key : ProgramId)
  /-- `entries -> …` in `PromiseUtils.all` -/
  | processOutputs (group : Group)
  /-- `processOutputs -> supplyAsync(…)` -/
  | documentsGenerated (group : Group) (programPipelineMap : JMap ProgramId ProgramPipeline)
  /-- `documentsGeneratedPromise` ends as the promise ends that its callback has returned -/
  | documents (group : Group)

/-- The suppliers of the tasks. -/
inductive Supplier
  | loadProgramTemplates
  | compileProgramTemplate (programId : ProgramId) (programTemplate : ProgramTemplate)
    (group : Group)
  | runProgram (programId : ProgramId) (compilerOutput : CompilerOutput) (group : Group)
  | generateExamVariants (group : Group) (programPipelineMap : JMap ProgramId ProgramPipeline)
    (processOutputs : JMap ProgramId ProcessOutput)

/-- The promise a callback is registered on. -/
def Callback.source : Callback → PromiseRef
  | workDone ref => ref
  | exception ref => ref
  | programPipelines => .programTemplates
  | examPipeline _ => .programPipelines
  | runProgram programId group => .compilerOutput programId group
  | runOutput programId group => .runOutput programId group
  | entry _ _ valuePromise => .processOutput valuePromise.1 valuePromise.2
  | collect group _ key => .entry group key
  | processOutputs group => .entries group
  | documentsGenerated group _ => .processOutputs group
  | documents group => .documents group

/-- The promise that depends on a callback. -/
def Callback.target : Callback → Option PromiseRef
  | workDone _ => none
  | exception _ => none
  | programPipelines => some .programPipelines
  | examPipeline group => some (.examPipeline group)
  | runProgram programId group => some (.processOutput programId group)
  | runOutput programId group => some (.processOutput programId group)
  | entry group key _ => some (.entry group key)
  | collect group _ _ => some (.entries group)
  | processOutputs group => some (.processOutputs group)
  | documentsGenerated group _ => some (.documentsGenerated group)
  | documents group => some (.documentsGenerated group)

/-- The promise of a supplier's task. -/
def Supplier.promise : Supplier → PromiseRef
  | loadProgramTemplates => .programTemplates
  | compileProgramTemplate programId _ group => .compilerOutput programId group
  | runProgram programId _ group => .runOutput programId group
  | generateExamVariants group _ _ => .documents group

/-- The state of a task. -/
abbrev TaskState := ContextState PromiseRef PromiseRef.Value Callback Supplier

/-- The code that runs on the thread of the user interface. -/
abbrev UiCode := Code TaskState JavaException

/-! ### The pipelines -/

def supplyAsync (supplier : Supplier) : UiCode Unit :=
  ContextState.supplyAsync Supplier.promise .workDone .exception supplier

def register (callback : Callback) : UiCode Unit := modify fun s => s.register callback

def groupPipeline (programId : ProgramId) (programTemplate : ProgramTemplate) (group : Group) :
    UiCode GroupPipeline := do
  supplyAsync (.compileProgramTemplate programId programTemplate group)
  register (.runProgram programId group)
  pure ⟨programTemplate, (programId, group), (programId, group)⟩

def programPipeline (programId : ProgramId) (programTemplate : ProgramTemplate) :
    UiCode ProgramPipeline := do
  let groupPipelineA ← groupPipeline programId programTemplate Group.A
  let groupPipelineB ← groupPipeline programId programTemplate Group.B
  let groupPipelineMap : JMap Group GroupPipeline := ∅
  pure ⟨programTemplate,
    (groupPipelineMap.insert Group.A groupPipelineA).insert Group.B groupPipelineB⟩

/-- `factory.all`, of the promises of the entries of a map. -/
def factoryAll (group : Group) (keys : List ProgramId) : UiCode Unit :=
  if keys = [] then modify fun s => s.settle (.entries group) (.ok [])
  else modify fun s => s.registerAll (keys.map fun key => .collect group keys key)

/-- `PromiseUtils.all`, of the promises of process outputs of one group. -/
def all (group : Group) (inputMap : JMap ProgramId (ProgramId × Group)) : UiCode Unit := do
  forM inputMap.entries fun entry => register (.entry group entry.1 entry.2)
  factoryAll group inputMap.keys
  register (.processOutputs group)

/-- `programPipeline -> programPipeline.groupPipelineMap.get(group).processOutput`. -/
def processOutputPromise (group : Group) (programPipeline : ProgramPipeline) :
    UiCode (ProgramId × Group) :=
  match programPipeline.groupPipelineMap.lookup group with
  | some groupPipeline => pure groupPipeline.processOutput
  | none => throw .nullPointerException

def examPipeline (programPipelineMap : JMap ProgramId ProgramPipeline) (group : Group) :
    UiCode ExamPipeline := do
  let processOutputPromises ←
    mapMapByEntryM programPipelineMap fun entry => processOutputPromise group entry.2
  all group processOutputPromises
  register (.documentsGenerated group programPipelineMap)
  pure ⟨group⟩

def mainPipeline : UiCode Unit := do
  supplyAsync .loadProgramTemplates
  register .programPipelines
  forM [Group.A, Group.B] fun group => register (.examPipeline group)

/-! ### The lambdas -/

/-- `entries.stream().collect(Collectors.toMap(MapEntry::getKey, MapEntry::getValue))`. -/
def entriesToMap (entries : List (Entry ProgramId (Option ProcessOutput))) :
    Except JavaException (JMap ProgramId ProcessOutput) :=
  (collectToMap (fun _ value => pure value) entries ∅).result

/-- What a promise is resolved with, if it is. -/
def valueOf (s : TaskState) (ref : PromiseRef) : Option ref.Value :=
  match s.outcome ref with
  | some (.ok value) => some value
  | _ => none

/-- `factory.all` has one promise less to wait for, and resolves with all values behind the
last. -/
def collect (group : Group) (keys : List ProgramId) :
    UiCode (Option (List (Entry ProgramId (Option ProcessOutput)))) := do
  let s ← get
  if s.callbacks.any fun callback => callback.target = some (.entries group) then pure none
  else pure (keys.mapM fun key => valueOf s (.entry group key))

/-- What a callback does. -/
def call : Callback → TaskState → TaskState
  | .workDone ref => ContextState.callWorkDone ref
  | .exception ref => ContextState.callException ref
  | .programPipelines =>
    callThen .programTemplates .programPipelines fun programTemplates =>
      some <$> mapMapByEntryM programTemplates fun entry => programPipeline entry.1 entry.2
  | .examPipeline group =>
    callThen .programPipelines (.examPipeline group) fun programPipelines =>
      some <$> examPipeline programPipelines group
  | .runProgram programId group =>
    callThen (.compilerOutput programId group) (.processOutput programId group)
      fun compilerOutput => do
        supplyAsync (.runProgram programId compilerOutput group)
        register (.runOutput programId group)
        pure none
  | .runOutput programId group =>
    callThen (.runOutput programId group) (.processOutput programId group) fun processOutput =>
      pure (some processOutput)
  | .entry group key valuePromise =>
    callThen (.processOutput valuePromise.1 valuePromise.2) (.entry group key) fun value =>
      pure (some ⟨key, value⟩)
  | .collect group keys key =>
    callThen (.entry group key) (.entries group) fun _ => collect group keys
  | .processOutputs group =>
    callThen (.entries group) (.processOutputs group) fun entries =>
      some <$> liftExcept (entriesToMap entries)
  | .documentsGenerated group programPipelineMap =>
    callThen (.processOutputs group) (.documentsGenerated group) fun processOutputs => do
      supplyAsync (.generateExamVariants group programPipelineMap processOutputs)
      register (.documents group)
      pure none
  | .documents group =>
    callThen (.documents group) (.documentsGenerated group) fun value => pure (some value)

def evaluatedProgramTemplateMap (programPipelineMap : JMap ProgramId ProgramPipeline)
    (processOutputs : JMap ProgramId ProcessOutput) :
    Except JavaException (JMap ProgramId EvaluatedProgramTemplate) :=
  mapToMapM processOutputs.keys fun programId =>
    match programPipelineMap.lookup programId, processOutputs.lookup programId with
    | some programPipeline, some processOutput =>
      pure ⟨programPipeline.programTemplate, .ofProcessOutput processOutput⟩
    | _, _ => throw .nullPointerException

section

variable (env : Environment)

/-- What a supplier does. -/
def runSupplier : (supplier : Supplier) → Effectful supplier.promise.Value
  | .loadProgramTemplates => Effectful.ofExcept (loadProgramTemplates env)
  | .compileProgramTemplate programId programTemplate group =>
    compileProgramTemplate env programId programTemplate group
  | .runProgram programId compilerOutput group => runProgram programId compilerOutput group
  | .generateExamVariants group programPipelineMap processOutputs => do
    let evaluatedProgramTemplateMap ←
      Effectful.ofExcept (evaluatedProgramTemplateMap programPipelineMap processOutputs)
    generateExamVariantsForGroup env evaluatedProgramTemplateMap group

/-- The end of a task. -/
def finish (supplier : Supplier) (s : TaskState) : TaskState :=
  let output := runSupplier env supplier
  (s.addEffects output.effects).settle supplier.promise output.result

/-! ### The task -/

/-- The promises of a `ProjectTask`. -/
def projectTask : System PromiseRef PromiseRef.Value JavaException Callback Supplier TaskWorld where
  source := Callback.source
  target := Callback.target
  promise := Supplier.promise
  call := call
  finish := finish env

end

/-- The state of a task after `new ProjectTask(workspacePath)`. -/
def newProjectTask : TaskState :=
  (mainPipeline.run.run ⟨fun _ => none, [], [], ⟨⟨0, 0, none⟩, []⟩⟩).2

/-- `ProjectTask.State`. -/
inductive ProjectTask.State
  | running
  | failed
  | succeeded
deriving DecidableEq, Repr

def getProgress (s : TaskState) : ℚ := s.world.promiseContext.getProgress

def getState (s : TaskState) : ProjectTask.State :=
  if s.world.promiseContext.getException = none then
    if getProgress s = 1 then .succeeded else .running
  else .failed

/-- `Project.canStartTask`; `null` if no task has been started. -/
def canStartTask (projectTask : Option TaskState) : Bool :=
  match projectTask with
  | some s => getState s ≠ .running
  | none => true

end ExamGeneratorNg
