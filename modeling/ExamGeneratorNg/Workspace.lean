import ExamGeneratorNg.ExamGeneration
import ExamGeneratorNg.FileTree.Basic

/-!
# The files of a workspace

`ExamGeneration` again, with the files that it reads and writes: the template and the exams of each
group, and the directory `outputs` with what the programs have written.  `environmentOf` is what
the files of a workspace answer the rest of the program.
-/

namespace ExamGeneratorNg

/-! ### Files -/

/-- The files of the computer, but for those that `GccCompiler` leaves in the directory for
temporary files, which nothing else reads. -/
abbrev Files (Content : Type) := FileTree JString Content

/-- `java.nio.file.Path`: the names from the root on. -/
abbrev FilePath := List JString

/-- What the program asks of other programs and of libraries, beside the files. -/
structure Machine (Content : Type) where
  /-- `new String(bytes)` -/
  decode : Content → JString
  /-- what `Files.write` makes of lines -/
  encode : List JString → Content
  /-- loading what is at the path of `template.odt` -/
  loadDocument : Files Content → Except JavaException Node
  /-- the document that has been loaded, with another `content.xml` -/
  saveDocument : Files Content → Node → Content
  /-- whether a document can be saved in place of what is at its path -/
  saves : Files Content → Except JavaException Unit
  /-- whether `FileUtils.deleteDirectory` can delete what is at its path -/
  deletes : Files Content → Except JavaException Unit
  /-- as in `Environment`; the files it needs are not among the `Files` -/
  compile : ProgramId → Group → List JString → Except JavaException CompilerOutput
  /-- as in `Environment` -/
  toLowerCase : JString → JString

/-- An operation of the operating system, which throws an `IOException` where it is refused. -/
def orIoException {α : Type} (result : Option α) : Except JavaException α :=
  match result with
  | some a => .ok a
  | none => .error .ioException

variable {Content : Type}

/-- `Files.createDirectory`. -/
def createDirectory (path : FilePath) (files : Files Content) :
    Except JavaException (Files Content) :=
  orIoException (files.createDirectory path)

/-- The end of `Files.write` and of `OdfTextDocument.save`. -/
def writeFile (path : FilePath) (content : Content) (files : Files Content) :
    Except JavaException (Files Content) :=
  orIoException (files.write path content)

namespace Workspace

variable (machine : Machine Content)

/-- `FileUtils.deleteDirectory`. -/
def deleteDirectory (path : FilePath) (files : Files Content) :
    Except JavaException (Files Content) := do
  machine.deletes (files.get path)
  pure (files.put path .nothing)

/-! ### The outputs of the programs -/

/-- The directory of a program, with its two files. -/
def generateFilesWithProgramOutput (destinyDirectory : FilePath) (programId : ProgramId)
    (programOutput : ProgramOutput) (files : Files Content) :
    Except JavaException (Files Content) := do
  let programsDirectory := destinyDirectory ++ [toDecimal programId.id]
  let files ← createDirectory programsDirectory files
  let programsOutput := programsDirectory ++ [jstr "standard output.txt"]
  let files ← writeFile programsOutput (machine.encode programOutput.standardOutput) files
  let programsErrorOutput := programsDirectory ++ [jstr "error output.txt"]
  writeFile programsErrorOutput (machine.encode programOutput.errorOutput) files

/-- `if (Files.notExists(path)) Files.createDirectory(path)`. -/
def createDirectoryIfNotExists (path : FilePath) (files : Files Content) :
    Except JavaException (Files Content) :=
  if (files.get path).isNothing then createDirectory path files else pure files

def generateFilesWithProgramsOutputsForGroup
    (outputsOfProgramsOfGroup : JMap ProgramId ProgramOutput) (destinyDirectory : FilePath)
    (files : Files Content) : Except JavaException (Files Content) := do
  let files ← createDirectoryIfNotExists destinyDirectory files
  outputsOfProgramsOfGroup.keys.foldlM (fun files programId =>
    match outputsOfProgramsOfGroup.lookup programId with
    | some programOutput =>
      generateFilesWithProgramOutput machine destinyDirectory programId programOutput files
    -- the keys are those of the map
    | none => .error .nullPointerException) files

def generateFilesWithProgramsOutputs
    (programsAndItsOutputsForEachGroup : JMap ProgramId (JMap Group ProgramOutput))
    (destinationDirectory : FilePath) (files : Files Content) :
    Except JavaException (Files Content) :=
  Except.mapError .runtimeException do
    let directoryWithOutputs := destinationDirectory ++ [jstr "outputs"]
    let files ← deleteDirectory machine directoryWithOutputs files
    let files ← createDirectory directoryWithOutputs files
    ((List.range groupsCount).map fun i => (⟨i⟩ : Group)).foldlM (fun files group => do
      let groupOutputs ← (extractGroupOutputs programsAndItsOutputsForEachGroup group).result
      generateFilesWithProgramsOutputsForGroup machine groupOutputs
        (directoryWithOutputs ++ [group.getIdentifier]) files) files

/-! ### The exams -/

def templateName : JString := jstr "template.odt"

/-- `loadExamTemplate`. -/
def loadExamTemplate (workspacePath : FilePath) (files : Files Content) :
    Except JavaException Node :=
  (machine.loadDocument (files.get (workspacePath ++ [templateName]))).mapError .runtimeException

/-- `examTemplate.save`, of a template with filled placeholders. -/
def saveExam (workspacePath : FilePath) (fileName : JString) (contentDom : Node)
    (files : Files Content) : Except JavaException (Files Content) := do
  let path := workspacePath ++ [fileName]
  machine.saves (files.get path)
  let template := files.get (workspacePath ++ [templateName])
  writeFile path (machine.saveDocument template contentDom) files

/-- The files of the exams that are among some effects. -/
def examFiles (template : Files Content) (effects : List Effect) :
    List (JString × Files Content) :=
  effects.filterMap fun effect =>
    match effect with
    | .document fileName contentDom =>
      some (fileName, .file (machine.saveDocument template contentDom))
    | _ => none

def generateExamVariantForGroup (workspacePath : FilePath)
    (programTemplateMap : JMap ProgramId EvaluatedProgramTemplate) (group : Group)
    (variant : ExamVariant) (files : Files Content) : Except JavaException (Files Content) := do
  let exam := buildExamModel programTemplateMap group variant
  let examTemplate ← loadExamTemplate machine workspacePath files
  let placeholderRefs ← findPlaceholders examTemplate
  let (filled, contentDom) :=
    (fillPlaceholders machine.toLowerCase placeholderRefs exam variant).run.run examTemplate
  filled
  let fileName := jstr "exam_" ++ group.getIdentifier ++ jstr "_" ++ variant.name ++ jstr ".odt"
  saveExam machine workspacePath fileName contentDom files

def generateExamVariantsForGroup (workspacePath : FilePath)
    (programTemplateMap : JMap ProgramId EvaluatedProgramTemplate) (group : Group)
    (files : Files Content) : Except JavaException (Files Content) :=
  Except.mapError .runtimeException do
    let files ←
      generateExamVariantForGroup machine workspacePath programTemplateMap group .student files
    generateExamVariantForGroup machine workspacePath programTemplateMap group .teacher files

/-! ### The command line -/

/-- Whether a document can be saved under a name. -/
def canSave (workspacePath : FilePath) (fileName : JString) (files : Files Content) :
    Except JavaException Unit := do
  machine.saves (files.get (workspacePath ++ [fileName]))
  if files.Writable (workspacePath ++ [fileName]) then .ok () else .error .ioException

/-- Whether the directory `outputs` can be replaced. -/
def canWriteOutputs (workspacePath : FilePath) (files : Files Content) :
    Except JavaException Unit := do
  machine.deletes (files.get (workspacePath ++ [jstr "outputs"]))
  if files.HasParent (workspacePath ++ [jstr "outputs"]) then .ok () else .error .ioException

/-- What the files of a workspace answer. -/
def environmentOf (workspacePath : FilePath) (files : Files Content) : Environment where
  readWholeFile name := machine.decode <$> orIoException (files.read (workspacePath ++ [name]))
  compile := machine.compile
  loadDocument := machine.loadDocument (files.get (workspacePath ++ [templateName]))
  save fileName := canSave machine workspacePath fileName files
  writeOutputs := canWriteOutputs machine workspacePath files
  toLowerCase := machine.toLowerCase

/-- `new EvaluatedProgramTemplate(programTemplateMap.get(e.getKey()), e.getValue())`. -/
def evaluateProgramTemplate (programTemplateMap : JMap ProgramId ProgramTemplate)
    (programId : ProgramId) (programOutput : ProgramOutput) :
    Effectful (Option EvaluatedProgramTemplate) :=
  (programTemplateMap.lookup programId).elim
    (Effectful.ofExcept (.error .nullPointerException)) fun programTemplate =>
      pure (some ⟨programTemplate, programOutput⟩)

/-- The part of `generateAllExamVariants` that is done for each group. -/
def generateAllExamVariantsOfGroup (workspacePath : FilePath)
    (programTemplateMap : JMap ProgramId ProgramTemplate)
    (programOutputMap : JMap ProgramId (JMap Group ProgramOutput)) (group : Group)
    (files : Files Content) : Except JavaException (Files Content) := do
  let programOutputMapEx ← (extractGroupOutputs programOutputMap group).result
  let evaluatedProgramTemplateMap ←
    (toMap programOutputMapEx (evaluateProgramTemplate programTemplateMap)).result
  let files ← generateFilesWithProgramsOutputs machine programOutputMap workspacePath files
  generateExamVariantsForGroup machine workspacePath evaluatedProgramTemplateMap group files

/-- The second `generateAllExamVariants`. -/
def generateAllExamVariantsFrom (workspacePath : FilePath)
    (programTemplateMap : JMap ProgramId ProgramTemplate)
    (programOutputMap : JMap ProgramId (JMap Group ProgramOutput)) (files : Files Content) :
    Except JavaException (Files Content) :=
  ((List.range groupsCount).map fun i => (⟨i⟩ : Group)).foldlM (fun files group =>
    generateAllExamVariantsOfGroup machine workspacePath programTemplateMap programOutputMap group
      files) files

def generateAllExamVariants (workspacePath : FilePath) (files : Files Content) :
    Effectful (Files Content) := do
  let env := environmentOf machine workspacePath files
  let programTemplateMap ← Effectful.ofExcept (loadProgramTemplates env)
  let compilerOutputMap ← compileProgramTemplates env programTemplateMap groupsCount
  let processOutputMap ← runPrograms compilerOutputMap
  let programOutputMap := extractStandardOutputs processOutputMap
  Effectful.ofExcept
    (generateAllExamVariantsFrom machine workspacePath programTemplateMap programOutputMap files)

end Workspace

end ExamGeneratorNg
