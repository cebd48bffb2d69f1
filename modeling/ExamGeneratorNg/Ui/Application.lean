import ExamGeneratorNg.Ui.WorkspaceTask

/-!
# `ui.model.Project` and `ui.model.Application`

The user opens a workspace as a project, and starts one `ProjectTask` after another there.  A new
one may be started as soon as the last one of the project is not `RUNNING`, and another project may
be opened at any time, on the same workspace or on another.  What earlier tasks have started goes
on in the background, on the same files.
-/

namespace ExamGeneratorNg.Workspace

open Promise

/-- `Project`; the task that `taskProperty` has is given by its place among all that have been
started. -/
structure Project where
  workspacePath : FilePath
  taskProperty : Option ℕ
deriving DecidableEq, Repr

/-- A `ProjectTask` that has been started, with its workspace and the exams it is saving. -/
structure StartedTask (Byte : Type) where
  workspacePath : FilePath
  task : TaskState
  generations : JMap Group (Generation Byte)

/-- `Application`, with all tasks that have been started, and the files. -/
structure Application (Byte : Type) where
  openProjectProperty : Option Project
  tasks : List (StartedTask Byte)
  files : Files (List Byte)

variable {Byte : Type}

namespace Application

/-- The application has been started. -/
def start (files : Files (List Byte)) : Application Byte := ⟨none, [], files⟩

def openProject (workspacePath : FilePath) (application : Application Byte) : Application Byte :=
  { application with openProjectProperty := some ⟨workspacePath, none⟩ }

/-- `Project.getProjectTask`. -/
def getProjectTask (application : Application Byte) (project : Project) : Option TaskState := do
  let index ← project.taskProperty
  let started ← application.tasks[index]?
  some started.task

/-- `Project.startTask`; `checkState` throws if it is not possible. -/
def startTask (project : Project) (application : Application Byte) : Option (Application Byte) :=
  if canStartTask (application.getProjectTask project) then
    some
      { openProjectProperty := some { project with taskProperty := some application.tasks.length }
        tasks := application.tasks ++ [⟨project.workspacePath, newProjectTask, ∅⟩]
        files := application.files }
  else none

/-- `onGeneratePressed`; the button is not enabled while no project is open. -/
def onGeneratePressed (application : Application Byte) : Option (Application Byte) := do
  let project ← application.openProjectProperty
  application.startTask project

end Application

/-- What may happen in the application. -/
inductive ApplicationAction
  /-- `onFileOpen`, with a directory that has been chosen -/
  | openProject (workspacePath : FilePath)
  /-- `onGeneratePressed` -/
  | generatePressed
  /-- something happens in a task that has been started -/
  | task (index : ℕ) (action : TaskAction)
deriving DecidableEq, Repr

/-- The application on the files. -/
def applicationOnFiles [Inhabited Byte] (machine : Machine (List Byte)) :
    Transition.System (Application Byte) ApplicationAction where
  next
    | .openProject workspacePath, application => some (application.openProject workspacePath)
    | .generatePressed, application => application.onGeneratePressed
    | .task index action, application => do
      let started ← application.tasks[index]?
      let s ← (projectTaskOnFiles machine started.workspacePath).next action
        ⟨started.task, started.generations, application.files⟩
      some { application with
        tasks := application.tasks.set index ⟨started.workspacePath, s.task, s.generations⟩
        files := s.files }

end ExamGeneratorNg.Workspace
