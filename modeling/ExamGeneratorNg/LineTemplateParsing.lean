import ExamGeneratorNg.LineTemplate
import ExamGeneratorNg.Util.ListUtils

/-!
# Parsing of program templates

`LineTemplateParsing` and `ProgramTemplateParsing`.  A line may end in directives (`%hidden` or
`%excluded`, then `%` and the letter of a group); what is left of it is text with gaps, a gap
being an underscore-free answer between two gap markers.
-/

namespace ExamGeneratorNg

open Regex

/-! ### Patterns -/

/-- `GAP_MARKER`. -/
def gapMarker : JString := [chr '_', chr '_']

/-- `GAP_PATTERN`: `__([^_]+)__`. -/
def gapPattern : Pattern JChar :=
  .seq (.word gapMarker) (.seq (.group 1 (.many1 (· ≠ chr '_'))) (.word gapMarker))

/-- `\s*%` `name` `\s*$`, the shape of the three directives. -/
def directivePattern (name : Pattern JChar) : Pattern JChar :=
  .seq (.many isSpace) (.seq (.word [chr '%']) (.seq name (.seq (.many isSpace) endAnchor)))

/-- `GROUP_PATTERN`: `\s*%([a-z])\s*$`. -/
def groupPattern : Pattern JChar := directivePattern (.group 1 (.one isLowercase))

/-- `EXCLUDED_PATTERN`: `\s*%excluded\s*$`. -/
def excludedPattern : Pattern JChar := directivePattern (.word (jstr "excluded"))

/-- `HIDDEN_PATTERN`: `\s*%hidden\s*$`. -/
def hiddenPattern : Pattern JChar := directivePattern (.word (jstr "hidden"))

/-! ### Directives -/

/-- A line without its directives. -/
structure NormalizedLine where
  content : JString
  kind : LineKind
  group : Option Group
deriving DecidableEq, Repr

def normalizeLineInner (lineStr : JString) (group : Option Group) : NormalizedLine :=
  let s0 := removeFirst lineStr excludedPattern
  if s0 ≠ lineStr then ⟨s0, .excluded, group⟩
  else
    let s1 := removeFirst lineStr hiddenPattern
    if s1 ≠ lineStr then ⟨s1, .hidden, group⟩
    else ⟨lineStr, .normal, group⟩

def normalizeLine (lineStr : JString) : Except JavaException NormalizedLine :=
  match groupPattern.find lineStr with
  | some m => do
    -- `m.group(1)` is never `null` here: the group is not optional in the pattern
    let idStr := (m.group 1).getD []
    let group ← Group.fromLowercaseIdentifier idStr
    let lineStrInner := removeFirst lineStr groupPattern
    pure (normalizeLineInner lineStrInner (some group))
  | none => pure (normalizeLineInner lineStr none)

/-! ### Gaps -/

/-- The range of a match; the two ghost ranges at the ends of a line have an end or a begin only,
the other one is `-1`. -/
structure Range where
  begin : ℤ
  «end» : ℤ
deriving DecidableEq, Repr

def extractGapContent (lineStr : JString) (v : Range) : Except JavaException JString :=
  let n : ℤ := gapMarker.length
  substring lineStr (v.begin + n) (v.end - n)

def extractTextContent (lineStr : JString) (v0 v1 : Range) : Except JavaException JString :=
  substring lineStr v0.end v1.begin

/-- The mappers given to `mapPath` may throw, and the first exception ends the loop. -/
def parseNormalizedLine (lineStr : JString) : Except JavaException (List LineNode) :=
  let matchResults := gapPattern.findAll lineStr
  let ranges := matchResults.map fun matchResult => (⟨matchResult.start, matchResult.stop⟩ : Range)
  (mapPath ranges
    (fun v => LineNode.gap <$> extractGapContent lineStr v)
    (fun v0 v1 => LineNode.text <$> extractTextContent lineStr v0 v1)
    ⟨-1, 0⟩ ⟨lineStr.length, -1⟩).mapM id

/-! ### Lines and programs -/

def parseLineTemplate (lineStr : JString) : Except JavaException LineTemplate := do
  let normalizedLine ← normalizeLine lineStr
  let nodes ← parseNormalizedLine normalizedLine.content
  pure ⟨nodes, normalizedLine.kind, normalizedLine.group⟩

def parseProgramTemplate (programTemplateStr : JString) : Except JavaException ProgramTemplate := do
  let lineTemplates ← (splitByNewline programTemplateStr).mapM parseLineTemplate
  pure ⟨lineTemplates⟩

end ExamGeneratorNg
