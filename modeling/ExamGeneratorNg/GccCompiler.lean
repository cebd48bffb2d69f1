import ExamGeneratorNg.Effects
import ExamGeneratorNg.Transition.Basic

/-!
# `GccCompiler` and `CppProgram`

The tasks of a `ProjectTask` compile and run their programs at the same time, with files in the one
directory for temporary files.  Here a call of `compile`, together with the call of `execute` on the
program that it returns, is taken statement by statement, in any order with those of other
compilations and with what other programs do to files of their own.

Of the platform it is assumed that `createTempFile` makes a file that was not there, that
`randomUUID` gives no name that is in use, that other programs leave alone the files of the
compilations, and that `g++` and the programs end and depend on nothing but what they are given.
-/

namespace ExamGeneratorNg.Gcc

/-! ### The tools -/

/-- A run of `g++`: its output, and the program that it has written, which there is if it has
exited with status 0. -/
structure GccRun (Content : Type) where
  output : ProcessOutput
  program : Option Content
  isSome_program : output.status = 0 → program.isSome

/-- `g++` and the programs that it makes, by what they do with their arguments and the content of a
file, if there is one.  The files are those of the directory for temporary files. -/
structure Toolchain (Content : Type) where
  /-- what `Files.write` makes of lines -/
  encode : List JString → Content
  /-- `ProcessUtils.execute` of `g++`, which may name both files in its messages -/
  gcc (programPath sourceCodeFile : JString) (source : Option Content) :
    Except JavaException (GccRun Content)
  /-- `ProcessUtils.execute` of a program, which is given its own path -/
  execute (programPath : JString) (program : Option Content) : Except JavaException ProcessOutput

/-- The files of the directory for temporary files. -/
abbrev TempFiles (Content : Type) := JMap JString Content

variable {Content : Type}

/-- `CppProgram`. -/
structure CppProgram where
  program : JString
deriving DecidableEq, Repr

def CppProgram.execute (toolchain : Toolchain Content) (files : TempFiles Content)
    (cppProgram : CppProgram) : Except JavaException ProcessOutput :=
  (toolchain.execute cppProgram.program (files.lookup cppProgram.program)).mapError
    .runtimeException

/-- The `CompilerOutput` of a `GccCompiler`. -/
structure GccOutput where
  diagnostics : List JString
  program : Option CppProgram
deriving DecidableEq, Repr

/-- The end of `compile`. -/
def gccOutput (programPath : JString) (run : GccRun Content) : GccOutput where
  diagnostics := run.output.getDiagnostics
  program := if run.output.status = 0 then some ⟨programPath⟩ else none

/-- A `CompilerOutput`, by what running its program gives with the files as they are. -/
def GccOutput.compilerOutput (toolchain : Toolchain Content) (files : TempFiles Content)
    (output : GccOutput) : CompilerOutput where
  diagnostics := output.diagnostics
  program := output.program.map fun cppProgram => ⟨cppProgram.execute toolchain files⟩

/-! ### Compilations -/

/-- How far a compilation has come, with its `sourceCodeFile` and its `programPath`. -/
inductive Stage (Content : Type)
  /-- `compile` has been called -/
  | called
  /-- `createTempFile` has returned -/
  | created (sourceCodeFile : JString)
  /-- `Files.write` has returned -/
  | written (sourceCodeFile : JString)
  /-- `createSourceCodeFileFrom` has thrown an exception -/
  | refused (sourceCodeFile : Option JString)
  /-- `g++` has been started -/
  | started (sourceCodeFile programPath : JString)
  /-- `g++` has read the source -/
  | compiling (sourceCodeFile programPath : JString) (run : GccRun Content)
  /-- `compile` has returned, or thrown an exception -/
  | returned (sourceCodeFile programPath : JString) (result : Except JavaException GccOutput)
  /-- the program has been run -/
  | executed (sourceCodeFile programPath : JString) (output : GccOutput)
    (result : Except JavaException ProcessOutput)

def Stage.sourceCodeFile : Stage Content → Option JString
  | called => none
  | created sourceCodeFile => some sourceCodeFile
  | written sourceCodeFile => some sourceCodeFile
  | refused sourceCodeFile => sourceCodeFile
  | started sourceCodeFile _ => some sourceCodeFile
  | compiling sourceCodeFile _ _ => some sourceCodeFile
  | returned sourceCodeFile _ _ => some sourceCodeFile
  | executed sourceCodeFile _ _ _ => some sourceCodeFile

def Stage.programPath : Stage Content → Option JString
  | started _ programPath => some programPath
  | compiling _ programPath _ => some programPath
  | returned _ programPath _ => some programPath
  | executed _ programPath _ _ => some programPath
  | _ => none

/-- The files of a compilation. -/
def Stage.names (stage : Stage Content) : List JString :=
  stage.sourceCodeFile.toList ++ stage.programPath.toList

/-- What a compilation can do next. -/
inductive Statement
  /-- `Files.createTempFile`, with the part of the name that it makes up -/
  | createTempFile (random : JString)
  /-- `Files.write` -/
  | write
  /-- the operating system refuses to create the file or to write it -/
  | refuse
  /-- `UUID.randomUUID`, and the start of `g++` -/
  | randomUUID (uuid : JString)
  /-- `g++` reads the source -/
  | readSource
  /-- `g++` writes the program and exits, and `compile` returns -/
  | exit
  /-- `CppProgram.execute` -/
  | execute
deriving DecidableEq, Repr

/-- The name of the file of a source. -/
def sourceCodeFileName (random : JString) : JString :=
  jstr "sourceCode" ++ random ++ jstr ".cpp"

/-- The name of the file of a program. -/
def programFileName (uuid : JString) : JString := uuid ++ jstr ".exe"

/-- A statement of a compilation, where it is next; `names` are the files of all compilations. -/
def next (toolchain : Toolchain Content) (names : List JString) (files : TempFiles Content)
    (sourceCode : List JString) (stage : Stage Content) (statement : Statement) :
    Option (TempFiles Content × Stage Content) :=
  match statement, stage with
  | .createTempFile random, .called =>
    let sourceCodeFile := sourceCodeFileName random
    if files.lookup sourceCodeFile = none then
      some (files.insert sourceCodeFile (toolchain.encode []), .created sourceCodeFile)
    else none
  | .write, .created sourceCodeFile =>
    some (files.insert sourceCodeFile (toolchain.encode sourceCode), .written sourceCodeFile)
  | .refuse, .called => some (files, .refused none)
  | .refuse, .created sourceCodeFile => some (files, .refused (some sourceCodeFile))
  | .randomUUID uuid, .written sourceCodeFile =>
    let programPath := programFileName uuid
    if programPath ∉ names ∧ files.lookup programPath = none then
      some (files, .started sourceCodeFile programPath)
    else none
  | .readSource, .started sourceCodeFile programPath =>
    match toolchain.gcc programPath sourceCodeFile (files.lookup sourceCodeFile) with
    | .ok run => some (files, .compiling sourceCodeFile programPath run)
    | .error e => some (files, .returned sourceCodeFile programPath (.error (.runtimeException e)))
  | .exit, .compiling sourceCodeFile programPath run =>
    let files := match run.program with
      | some program => files.insert programPath program
      | none => files
    some (files, .returned sourceCodeFile programPath (.ok (gccOutput programPath run)))
  | .execute, .returned sourceCodeFile programPath (.ok output) => do
    let cppProgram ← output.program
    some (files,
      .executed sourceCodeFile programPath output (cppProgram.execute toolchain files))
  | _, _ => none

/-! ### All compilations -/

/-- A call of `compile`. -/
structure Compilation (Content : Type) where
  sourceCode : List JString
  stage : Stage Content

/-- The compilations, and the files. -/
structure Compilations (Content : Type) where
  compilations : List (Compilation Content)
  files : TempFiles Content

/-- The files of all compilations. -/
def Compilations.names (s : Compilations Content) : List JString :=
  s.compilations.flatMap fun compilation => compilation.stage.names

/-- What may happen. -/
inductive Action (Content : Type)
  /-- `compile` is called -/
  | compile (sourceCode : List JString)
  /-- a compilation goes on -/
  | statement (index : ℕ) (statement : Statement)
  /-- another program writes or deletes a file -/
  | other (name : JString) (content : Option Content)

/-- All compilations at work. -/
def gccCompiler (toolchain : Toolchain Content) :
    Transition.System (Compilations Content) (Action Content) where
  next
    | .compile sourceCode, s =>
      some { s with compilations := s.compilations ++ [⟨sourceCode, .called⟩] }
    | .statement index statement, s => do
      let compilation ← s.compilations[index]?
      let (files, stage) ←
        next toolchain s.names s.files compilation.sourceCode compilation.stage statement
      some ⟨s.compilations.set index { compilation with stage := stage }, files⟩
    | .other name content, s =>
      if name ∈ s.names then none
      else
        match content with
        | some content => some { s with files := s.files.insert name content }
        | none => some { s with files := s.files.erase name }

/-! ### One compilation alone -/

/-- What `compile` returns with the given names for its files, if nothing else happens meanwhile. -/
def Toolchain.compile (toolchain : Toolchain Content) (sourceCodeFile programPath : JString)
    (sourceCode : List JString) : Except JavaException CompilerOutput :=
  match toolchain.gcc programPath sourceCodeFile (some (toolchain.encode sourceCode)) with
  | .ok run =>
    .ok
      { diagnostics := run.output.getDiagnostics
        program :=
          if run.output.status = 0 then
            some ⟨(toolchain.execute programPath run.program).mapError .runtimeException⟩
          else none }
  | .error e => .error (.runtimeException e)

end ExamGeneratorNg.Gcc
