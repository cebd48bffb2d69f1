import ExamGeneratorNg.ExamTemplateLoading
import ExamGeneratorNg.Exam
import ExamGeneratorNg.Util.ListUtils

/-!
# Realization of exam templates

`ExamTemplateRealization`: the placeholders of a document are replaced by what they stand for.
-/

namespace ExamGeneratorNg

/-! ### Contents -/

def dumpProgram (programSource : LineString) (placeholder : MatrixPlaceholder) :
    Except JavaException LineString := do
  checkArgument (placeholder.kind = .code)
  let programLines := programSource.lines
  if programLines.length > placeholder.height then
    throw (.examTemplateRealizationException
      (jstr "Program is too high for placeholder " ++ placeholder.repr))
  else if programSource.longestLineLength > placeholder.width then
    throw (.examTemplateRealizationException
      (jstr "Program is too wide for placeholder " ++ placeholder.repr))
  else
    let n := placeholder.height - programLines.length
    pure ⟨programLines ++ List.replicate n []⟩

def dumpOutputLineString (programOutput : LineString) (placeholder : MatrixPlaceholder) :
    Except JavaException LineString := do
  let lineIndex : ℤ := placeholder.lineIndex - 1
  let programOutputLines := programOutput.lines
  if lineIndex < programOutputLines.length then
    let line ← listGet programOutputLines lineIndex
    LineString.fromSingleLine line
  else
    throw (.examTemplateRealizationException
      (placeholder.repr ++ jstr ": Index out of bounds of program output"))

def dumpOutput (programOutput : LineString) (placeholder : MatrixPlaceholder) :
    Except JavaException LineString := do
  checkArgument (placeholder.kind = .output)
  dumpOutputLineString programOutput placeholder

def dumpSecretOutput (programOutput : LineString) (placeholder : MatrixPlaceholder)
    (variant : ExamVariant) : Except JavaException LineString := do
  checkArgument (placeholder.kind = .secretOutput)
  match variant with
  | .student => LineString.fromSingleLine (nCopiesOfChar placeholder.width (chr '_'))
  | .teacher => dumpOutputLineString programOutput placeholder

/-- The program is `null` if the exam has no program with the index of the placeholder. -/
def extractContentForPlaceholder (program : Option ExamProgram) (placeholder : Placeholder)
    (variant : ExamVariant) (group : Group) : Except JavaException LineString :=
  match placeholder with
  | .matrix placeholder =>
    match program with
    | none => throw .nullPointerException
    | some program =>
      match placeholder.kind with
      | .code => dumpProgram program.source placeholder
      | .output => dumpOutput program.output placeholder
      | .secretOutput => dumpSecretOutput program.output placeholder variant
  | .line placeholder =>
    match placeholder.kind with
    | .group => LineString.fromSingleLine group.getIdentifier
    | .kind => LineString.fromSingleLine variant.name

/-! ### Paragraphs -/

/-- The node list after one more character of the line.  A space behind a space goes into a
`text:s`, any other character into the last text. -/
def combineNodesWithChar (nodes : List Node) (character : JChar) :
    Except JavaException (List Node) :=
  match decide (character = chr ' '), nodes.getLast? with
  | true, some (.node (.text textContent) _) => do
    let last ← listGet textContent ((textContent.length : ℤ) - 1)
    if last = chr ' ' then pure (nodes ++ [Node.space 1])
    else pure (nodes.dropLast ++ [Node.text (textContent ++ [character])])
  | true, some (.node (.element _ (.space c) _) _) =>
    pure (nodes.dropLast ++ [Node.space (c + 1)])
  | false, some (.node (.text textContent) _) =>
    pure (nodes.dropLast ++ [Node.text (textContent ++ [character])])
  | _, _ => pure (nodes ++ [Node.text [character]])

def lineToNodes (line : JString) : Except JavaException (List Node) :=
  line.foldlM combineNodesWithChar []

def lineStringToParagraph (str : LineString) (styleName : JString) : Except JavaException Node := do
  let nodesMatrix ← str.lines.mapM lineToNodes
  let nodes := join [Node.lineBreak] nodesMatrix
  pure (Node.paragraph styleName nodes)

/-! ### Filling -/

/-- A computation that changes the document and may throw. -/
abbrev Filling := ExceptT JavaException (StateM Node)

def fillPlaceholderWithContent (placeholderRef : PlaceholderRef) (content : LineString) :
    Filling Unit := do
  let wrapperCell := placeholderRef.wrapperCell
  let styleName := placeholderRef.styleName
  modify fun contentDom => contentDom.removeAllChildren wrapperCell
  let codeParagraph ← liftExcept (lineStringToParagraph content styleName)
  modify fun contentDom => contentDom.appendChild wrapperCell codeParagraph

section

-- the lower case of a string in the default locale of the platform
variable (toLowerCase : JString → JString)

/-- The content `fillPlaceholder` writes. -/
def contentForPlaceholder (placeholder : Placeholder) (exam : Exam) (variant : ExamVariant) :
    Except JavaException LineString := do
  let program ←
    match placeholder with
    | .matrix placeholder => pure (exam.examProgramMap.lookup ⟨placeholder.index⟩)
    | .line _ => some <$> ExamProgram.emptyExamProgram
  let group ← Group.fromLowercaseIdentifier (toLowerCase exam.group)
  extractContentForPlaceholder program placeholder variant group

def fillPlaceholder (placeholderRef : PlaceholderRef) (exam : Exam) (variant : ExamVariant) :
    Filling Unit := do
  let content ←
    liftExcept (contentForPlaceholder toLowerCase placeholderRef.placeholder exam variant)
  fillPlaceholderWithContent placeholderRef content

def fillPlaceholders (placeholderRefs : List PlaceholderRef) (exam : Exam)
    (variant : ExamVariant) : Filling Unit :=
  forM placeholderRefs fun placeholderRef => fillPlaceholder toLowerCase placeholderRef exam variant

end

end ExamGeneratorNg
