import ExamGeneratorNg.ExamTemplateRealization
import ExamGeneratorNg.ProgramRunning
import ExamGeneratorNg.ProgramTemplateLoading

/-!
# Generation of exams

`ExamGeneration`: from evaluated programs to the exam documents of a group, and the way from a
workspace to all exam documents that the command line takes.
-/

namespace ExamGeneratorNg

/-- `GROUPS_COUNT`. -/
def groupsCount : ℕ := 2

/-! ### The exam of a group -/

def buildExamProgramSource (programTemplate : ProgramTemplate) (group : Group)
    (variant : ExamVariant) : LineString :=
  match variant with
  | .student => realizeProgramTemplate programTemplate .student group
  | .teacher => realizeProgramTemplate programTemplate .teacher group

def buildExamProgram (programTemplate : EvaluatedProgramTemplate) (group : Group)
    (variant : ExamVariant) : ExamProgram where
  source := buildExamProgramSource programTemplate.programTemplate group variant
  output := ⟨programTemplate.programOutput.standardOutput⟩

def buildExamModel (programTemplateMap : JMap ProgramId EvaluatedProgramTemplate) (group : Group)
    (variant : ExamVariant) : Exam where
  group := group.getIdentifier
  examProgramMap := mapMapByValue programTemplateMap fun programTemplate =>
    buildExamProgram programTemplate group variant

variable (env : Environment)

def generateExamVariantForGroup
    (programTemplateMap : JMap ProgramId EvaluatedProgramTemplate) (group : Group)
    (variant : ExamVariant) : Effectful Unit := do
  let exam := buildExamModel programTemplateMap group variant
  let examTemplate ← (Effectful.ofExcept env.loadDocument).wrapException
  let placeholderRefs ← Effectful.ofExcept (findPlaceholders examTemplate)
  let (filled, contentDom) :=
    (fillPlaceholders env.toLowerCase placeholderRefs exam variant).run.run examTemplate
  Effectful.ofExcept filled
  let fileName := jstr "exam_" ++ group.getIdentifier ++ jstr "_" ++ variant.name ++ jstr ".odt"
  Effectful.ofExcept (env.save fileName)
  Effectful.perform (.document fileName contentDom)

def generateExamVariantsForGroup
    (programTemplateMap : JMap ProgramId EvaluatedProgramTemplate) (group : Group) :
    Effectful Unit := do
  Effectful.perform (.examVariants group programTemplateMap)
  Effectful.wrapException do
    generateExamVariantForGroup env programTemplateMap group .student
    generateExamVariantForGroup env programTemplateMap group .teacher

/-! ### The command line -/

def extractStandardOutputs
    (programOutputMap : JMap ProgramId (JMap Group ProcessOutput)) :
    JMap ProgramId (JMap Group ProgramOutput) :=
  mapMapByValue programOutputMap fun groupProcessOutputMap =>
    mapMapByValue groupProcessOutputMap ProgramOutput.ofProcessOutput

/-- `toMap` throws if a program has no output for the group. -/
def extractGroupOutputs (programOutputMap : JMap ProgramId (JMap Group ProgramOutput))
    (group : Group) : Effectful (JMap ProgramId ProgramOutput) :=
  toMap programOutputMap fun _ groupProgramOutputMap => pure (groupProgramOutputMap.lookup group)

/-- What is written to the files is of no interest here, only whether that ends well. -/
def generateFilesWithProgramsOutputs
    (programOutputMap : JMap ProgramId (JMap Group ProgramOutput)) : Effectful Unit :=
  Effectful.wrapException do
    forM ((List.range groupsCount).map fun i => (⟨i⟩ : Group)) fun group => do
      let _ ← extractGroupOutputs programOutputMap group
    Effectful.ofExcept env.writeOutputs

/-- The part of `generateAllExamVariants` that is done for each group. -/
def generateAllExamVariantsOfGroup (programTemplateMap : JMap ProgramId ProgramTemplate)
    (programOutputMap : JMap ProgramId (JMap Group ProgramOutput)) (group : Group) :
    Effectful Unit := do
  let programOutputMapEx ← extractGroupOutputs programOutputMap group
  let evaluatedProgramTemplateMap ← toMap programOutputMapEx fun programId programOutput =>
    match programTemplateMap.lookup programId with
    | some programTemplate => pure (some ⟨programTemplate, programOutput⟩)
    -- both maps have the same keys
    | none => Effectful.ofExcept (.error .nullPointerException)
  generateFilesWithProgramsOutputs env programOutputMap
  generateExamVariantsForGroup env evaluatedProgramTemplateMap group

/-- The second `generateAllExamVariants`. -/
def generateAllExamVariantsFrom (programTemplateMap : JMap ProgramId ProgramTemplate)
    (programOutputMap : JMap ProgramId (JMap Group ProgramOutput)) : Effectful Unit :=
  forM ((List.range groupsCount).map fun i => (⟨i⟩ : Group)) fun group =>
    generateAllExamVariantsOfGroup env programTemplateMap programOutputMap group

def generateAllExamVariants : Effectful Unit := do
  let programTemplateMap ← Effectful.ofExcept (loadProgramTemplates env)
  let compilerOutputMap ← compileProgramTemplates env programTemplateMap groupsCount
  let processOutputMap ← runPrograms compilerOutputMap
  let programOutputMap := extractStandardOutputs processOutputMap
  generateAllExamVariantsFrom env programTemplateMap programOutputMap

end ExamGeneratorNg
