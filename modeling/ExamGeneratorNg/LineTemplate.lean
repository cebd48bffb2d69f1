import ExamGeneratorNg.Util.StringUtils

/-!
# Groups, lines and programs: the data the exam is made from
-/

namespace ExamGeneratorNg

/-! ### Groups -/

/-- A group of students. -/
structure Group where
  index : ℤ
deriving DecidableEq, Repr

namespace Group

/-- `Group.A`. -/
def A : Group := ⟨0⟩

/-- `Group.B`. -/
def B : Group := ⟨1⟩

/-- The letter `(char) ('A' + index)`, as a string. -/
def getIdentifier (group : Group) : JString :=
  [UInt16.ofNat ((('A'.toNat : ℤ) + group.index) % 2 ^ 16).toNat]

/-- The group with the given lowercase letter; other strings are refused. -/
def fromLowercaseIdentifier (id : JString) : Except JavaException Group :=
  match id with
  | [c] =>
    if isLowercase c then .ok ⟨(c.toNat : ℤ) - (chr 'a').toNat⟩
    else .error .illegalArgumentException
  | _ => .error .illegalArgumentException

end Group

/-! ### Line templates -/

/-- `LineTemplate.LineKind`. -/
inductive LineKind
  | normal
  | hidden
  | excluded
deriving DecidableEq, Repr

/-- `LineTemplate.Node`: a `TextNode` or a `GapNode`. -/
inductive LineNode
  | text (content : JString)
  | gap (content : JString)
deriving DecidableEq, Repr

/-- A line of a program: its nodes, its kind, and the group it is meant for, if any. -/
structure LineTemplate where
  nodes : List LineNode
  kind : LineKind
  group : Option Group
deriving DecidableEq, Repr

/-- A program: its lines. -/
structure ProgramTemplate where
  lineTemplates : List LineTemplate
deriving DecidableEq, Repr

/-! ### Plain text -/

/-- A text, line by line. -/
structure LineString where
  lines : List JString
deriving DecidableEq, Repr

namespace LineString

/-- The length of the longest line, `0` if there is no line. -/
def longestLineLength (str : LineString) : ℕ := (str.lines.map List.length).foldr max 0

/-- The text of one line, which must not contain a line break. -/
def fromSingleLine (line : JString) : Except JavaException LineString := do
  checkArgument !(line.contains (chr '\r'))
  checkArgument !(line.contains (chr '\n'))
  pure ⟨[line]⟩

end LineString

/-- `ProgramId`. -/
structure ProgramId where
  id : ℕ
deriving DecidableEq, Repr

/-- The id of the program with the given 0-based index. -/
def ProgramId.fromIndex (index : ℕ) : ProgramId := ⟨index + 1⟩

end ExamGeneratorNg
