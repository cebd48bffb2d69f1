import ExamGeneratorNg.GccCompiler
import ExamGeneratorNg.Ui.ProjectTask

/-!
# A `ProjectTask` and its compilations

`ProjectTask` again, with `g++`: what `compile` and `execute` do in its tasks is taken statement by
statement, while callbacks are called, other tasks end, and other programs use the directory for
temporary files.
-/

namespace ExamGeneratorNg.Gcc

open Promise

variable {Content : Type}

/-! ### States -/

/-- A `ProjectTask`, and its compilations. -/
structure GccTask (Content : Type) where
  task : TaskState
  /-- the program and the group of each compilation -/
  calls : List (ProgramId × Group)
  compilations : Compilations Content

/-- The compilation of a program for a group, once `compile` has been called. -/
def GccTask.compilation (s : GccTask Content) (programId : ProgramId) (group : Group) :
    Option (Compilation Content) :=
  s.compilations.compilations[s.calls.idxOf (programId, group)]?

/-- How `compile` has ended; `createSourceCodeFileFrom` throws an `UncheckedIOException`. -/
def Stage.result : Stage Content → Option (Except JavaException GccOutput)
  | refused _ => some (.error .ioException)
  | returned _ _ result => some result
  | executed _ _ output _ => some (.ok output)
  | _ => none

/-- What `runProgram` finds, if it does not wait for `execute`: no program, or one that has been
run. -/
def Stage.program : Stage Content → Option (Option Program)
  | returned _ _ (.ok ⟨_, none⟩) => some none
  | executed _ _ _ result => some (some ⟨result⟩)
  | _ => none

/-! ### Tasks -/

/-- The task of the promise compiles or runs a program. -/
def usesGcc : PromiseRef → Bool
  | .compilerOutput _ _ => true
  | .runOutput _ _ => true
  | _ => false

/-- What a task gives to `compile`. -/
def sourceCode : Supplier → Option (List JString)
  | .compileProgramTemplate _ programTemplate group =>
    some (realizeProgramTemplate programTemplate .compiler group).lines
  | _ => none

/-- A task of `runProgram`, with what `execute` has done in it. -/
def withProgram (program : Option Program) : Supplier → Supplier
  | .runProgram programId compilerOutput group =>
    .runProgram programId { compilerOutput with program := program } group
  | supplier => supplier

/-! ### The task at work -/

/-- What may happen. -/
inductive TaskAction (Content : Type)
  /-- a callback is called -/
  | callback (ref : PromiseRef)
  /-- a task ends that neither compiles nor runs a program -/
  | task (ref : PromiseRef)
  /-- a task calls `compile` -/
  | compile (programId : ProgramId) (group : Group)
  /-- `compile` goes on, or `execute` is called -/
  | statement (programId : ProgramId) (group : Group) (statement : Statement)
  /-- a task ends in which `compile` has ended -/
  | compiled (programId : ProgramId) (group : Group)
  /-- a task of `runProgram` ends -/
  | executed (programId : ProgramId) (group : Group)
  /-- another program writes or deletes a file -/
  | other (name : JString) (content : Option Content)

/-- The action is not one of another program. -/
def TaskAction.isOwn : TaskAction Content → Bool
  | other _ _ => false
  | _ => true

variable (toolchain : Toolchain Content) (env : Environment)

/-- A `ProjectTask` and its compilations at work. -/
def gccTask : Transition.System (GccTask Content) (TaskAction Content) where
  next
    | .callback ref, s =>
      ((projectTask env).next s.task (.callback ref)).map fun task => { s with task := task }
    | .task ref, s =>
      if usesGcc ref then none
      else ((projectTask env).next s.task (.task ref)).map fun task => { s with task := task }
    | .compile programId group, s => do
      let supplier ← s.task.tasks.find? fun supplier =>
        supplier.promise = .compilerOutput programId group
      let sourceCode ← sourceCode supplier
      if (programId, group) ∈ s.calls then none
      else
        let compilations ← (gccCompiler toolchain).next (.compile sourceCode) s.compilations
        some ⟨s.task, s.calls ++ [(programId, group)], compilations⟩
    | .statement programId group statement, s => do
      -- it is the task of `runProgram` that calls `execute`
      if statement = .execute ∧
          ∀ supplier ∈ s.task.tasks, supplier.promise ≠ .runOutput programId group then none
      else
        let index := s.calls.idxOf (programId, group)
        let compilations ←
          (gccCompiler toolchain).next (.statement index statement) s.compilations
        some { s with compilations := compilations }
    | .compiled programId group, s => do
      let compilation ← s.compilation programId group
      let result ← compilation.stage.result
      let compilerOutput := result.map (GccOutput.compilerOutput toolchain s.compilations.files)
      let env := { env with compile := fun _ _ _ => compilerOutput }
      ((projectTask env).next s.task (.task (.compilerOutput programId group))).map fun task =>
        { s with task := task }
    | .executed programId group, s => do
      let compilation ← s.compilation programId group
      let program ← compilation.stage.program
      let sys :=
        { projectTask env with finish := fun supplier => finish env (withProgram program supplier) }
      (sys.next s.task (.task (.runOutput programId group))).map fun task => { s with task := task }
    | .other name content, s => do
      let compilations ← (gccCompiler toolchain).next (.other name content) s.compilations
      some { s with compilations := compilations }

/-! ### The world with `g++` -/

/-- The names of the two files of a compilation that has returned. -/
def Stage.fileNames : Stage Content → Option (JString × JString)
  | returned sourceCodeFile programPath _ => some (sourceCodeFile, programPath)
  | executed sourceCodeFile programPath _ _ => some (sourceCodeFile, programPath)
  | _ => none

/-- The environment in which `g++` compiles the programs, with given names for the files of each
compilation; where there are none, the operating system refuses to create them. -/
def Toolchain.environmentWith (names : ProgramId → Group → Option (JString × JString)) :
    Environment :=
  { env with
    compile := fun programId group sourceCode =>
      match names programId group with
      | some (sourceCodeFile, programPath) =>
        toolchain.compile sourceCodeFile programPath sourceCode
      | none => .error .ioException }

end ExamGeneratorNg.Gcc
