import ExamGeneratorNg.FileStream.Basic
import ExamGeneratorNg.Transition.Basic
import ExamGeneratorNg.Ui.ProjectTask
import ExamGeneratorNg.Workspace

/-!
# A `ProjectTask` and the files of its workspace

`ProjectTask` again, with the files: what runs in the background reads them as they are when it
runs, and saves its exams among them, byte by byte, while other tasks do the same.

What runs in the background and saves nothing takes one step.  Of the platform it is assumed that a
file that has been opened can be written to its end.
-/

namespace ExamGeneratorNg.Workspace

open Promise

variable {Byte : Type} [Inhabited Byte] (machine : Machine (List Byte)) (workspacePath : FilePath)

/-! ### Files that are written byte by byte -/

/-- `new FileOutputStream(file)`, of a document that is saved. -/
def openFile (path : FilePath) (files : Files (List Byte)) :
    Except JavaException (Files (List Byte)) := do
  machine.saves (files.get path)
  writeFile path [] files

/-- `FileOutputStream.write`, behind the bytes that the stream has written before. -/
def writeByte (path : FilePath) (position : ℕ) (byte : Byte) (files : Files (List Byte)) :
    Files (List Byte) :=
  files.put path (.file (FileStream.writeAt position byte ((files.read path).getD [])))

/-! ### The exams of a group -/

/-- The part of `generateExamVariantForGroup` before the exam is saved. -/
def fillExam (env : Environment) (programTemplateMap : JMap ProgramId EvaluatedProgramTemplate)
    (group : Group) (variant : ExamVariant) : Except JavaException Node := do
  let exam := buildExamModel programTemplateMap group variant
  let examTemplate ← env.loadDocument.mapError .runtimeException
  let placeholderRefs ← findPlaceholders examTemplate
  let (filled, contentDom) :=
    (fillPlaceholders env.toLowerCase placeholderRefs exam variant).run.run examTemplate
  filled
  pure contentDom

def examFileName (group : Group) (variant : ExamVariant) : JString :=
  jstr "exam_" ++ group.getIdentifier ++ jstr "_" ++ variant.name ++ jstr ".odt"

/-- Where a call of `generateExamVariantsForGroup` is, with its local variables. -/
inductive GenerationPoint (Byte : Type)
  /-- `generateExamVariantForGroup` is called -/
  | called (variant : ExamVariant)
  /-- the template has been loaded, and its placeholders have been filled -/
  | filled (variant : ExamVariant) (template : Files (List Byte)) (contentDom : Node)
  /-- `save` has opened the file, and has written the bytes before the position -/
  | saving (variant : ExamVariant) (contentDom : Node) (bytes : List Byte) (position : ℕ)
  /-- the call has returned, or thrown an exception -/
  | ended (result : Except JavaException Unit)

/-- A call of `generateExamVariantsForGroup`, with what it has done so far. -/
structure Generation (Byte : Type) where
  group : Group
  programTemplateMap : JMap ProgramId EvaluatedProgramTemplate
  point : GenerationPoint Byte
  effects : List Effect

/-- The call that a task makes; it has ended at once if there is no map to call it with. -/
def newGeneration : Supplier → Option (Generation Byte)
  | .generateExamVariants group programPipelineMap processOutputs =>
    match evaluatedProgramTemplateMap programPipelineMap processOutputs with
    | .ok programTemplateMap =>
      some ⟨group, programTemplateMap, .called .student, [.examVariants group programTemplateMap]⟩
    | .error e => some ⟨group, ∅, .ended (.error e), []⟩
  | _ => none

/-- What comes behind the exam of a variant. -/
def GenerationPoint.next : ExamVariant → GenerationPoint Byte
  | .student => called .teacher
  | .teacher => ended (.ok ())

/-- The next statement of a call. -/
def Generation.next (files : Files (List Byte)) :
    Generation Byte → Option (Generation Byte × Files (List Byte))
  | ⟨group, programTemplateMap, .called variant, effects⟩ =>
    let env := environmentOf machine workspacePath files
    match fillExam env programTemplateMap group variant with
    | .ok contentDom =>
      let template := files.get (workspacePath ++ [templateName])
      some (⟨group, programTemplateMap, .filled variant template contentDom, effects⟩, files)
    | .error e =>
      some (⟨group, programTemplateMap, .ended (.error (.runtimeException e)), effects⟩, files)
  | ⟨group, programTemplateMap, .filled variant template contentDom, effects⟩ =>
    match openFile machine (workspacePath ++ [examFileName group variant]) files with
    | .ok files =>
      let bytes := machine.saveDocument template contentDom
      some (⟨group, programTemplateMap, .saving variant contentDom bytes 0, effects⟩, files)
    | .error e =>
      some (⟨group, programTemplateMap, .ended (.error (.runtimeException e)), effects⟩, files)
  | ⟨group, programTemplateMap, .saving variant contentDom bytes position, effects⟩ =>
    let fileName := examFileName group variant
    match bytes[position]? with
    | some byte =>
      some (⟨group, programTemplateMap, .saving variant contentDom bytes (position + 1), effects⟩,
        writeByte (workspacePath ++ [fileName]) position byte files)
    | none =>
      some (⟨group, programTemplateMap, .next variant,
        effects ++ [.document fileName contentDom]⟩, files)
  | ⟨_, _, .ended _, _⟩ => none

/-- How a call has ended. -/
def Generation.result (generation : Generation Byte) : Option (Except JavaException Unit) :=
  match generation.point with
  | .ended result => some result
  | _ => none

/-! ### The task -/

/-- A `ProjectTask` with its calls of `generateExamVariantsForGroup`, and the files as they are. -/
structure TaskOnFiles (Byte : Type) where
  task : TaskState
  generations : JMap Group (Generation Byte)
  files : Files (List Byte)

/-- What may happen in a task. -/
inductive TaskAction
  /-- a callback is called -/
  | callback (ref : PromiseRef)
  /-- a task ends that saves nothing -/
  | task (ref : PromiseRef)
  /-- a task calls `generateExamVariantsForGroup` -/
  | generate (group : Group)
  /-- the call for a group goes on -/
  | statement (group : Group)
  /-- a task ends in which the call has ended -/
  | generated (group : Group)
deriving DecidableEq, Repr

/-- The task of the promise saves exams. -/
def savesExams : PromiseRef → Bool
  | .documents _ => true
  | _ => false

/-- A `ProjectTask` on the files of its workspace. -/
def projectTaskOnFiles : Transition.System (TaskOnFiles Byte) TaskAction where
  next
    | .callback ref, s =>
      let sys := projectTask (environmentOf machine workspacePath s.files)
      (sys.next s.task (.callback ref)).map fun task => { s with task := task }
    | .task ref, s =>
      let sys := projectTask (environmentOf machine workspacePath s.files)
      if savesExams ref then none
      else (sys.next s.task (.task ref)).map fun task => { s with task := task }
    | .generate group, s => do
      let supplier ← s.task.tasks.find? fun supplier => supplier.promise = .documents group
      let generation ← newGeneration supplier
      if group ∈ s.generations then none
      else some { s with generations := s.generations.insert group generation }
    | .statement group, s => do
      let generation ← s.generations.lookup group
      let (generation, files) ← generation.next machine workspacePath s.files
      some ⟨s.task, s.generations.insert group generation, files⟩
    | .generated group, s => do
      let generation ← s.generations.lookup group
      let result ← generation.result
      let sys :=
        { projectTask (environmentOf machine workspacePath s.files) with
          finish := fun _ (task : TaskState) =>
            (task.addEffects generation.effects).settle (.documents group) result }
      let task ← sys.next s.task (.task (.documents group))
      some { s with task := task, generations := s.generations.erase group }

end ExamGeneratorNg.Workspace
