import ExamGeneratorNg.LineTemplate

/-!
# Placeholders

`Placeholder` with its two subclasses.  A matrix placeholder stands for the code or for an output
line of a program and its drawing (`#01---\\\`) gives its size; a line placeholder stands for the
group or the kind of the exam.
-/

namespace ExamGeneratorNg

open Regex

/-- `tryFindKindBy`, the same for both enumerations: the first of `values` with the symbol. -/
def findKindBy {Kind : Type} (values : List Kind) (getSymbol : Kind → JString) (symbol : JString) :
    Except JavaException Kind :=
  match values.find? fun p => getSymbol p = symbol with
  | some kind => .ok kind
  | none => .error .illegalArgumentException

/-- `Integer.parseInt` of a string of at least one and at most nine digits; other strings do not
occur. -/
def parseInt (s : JString) : ℕ := s.foldl (fun n c => 10 * n + (c.toNat - (chr '0').toNat)) 0

/-- `String.format("%02d", n)`. -/
def format02d (n : ℕ) : JString :=
  let digits := (Nat.toDigits 10 n).map chr
  List.replicate (2 - digits.length) (chr '0') ++ digits

/-! ### Matrix placeholders -/

/-- `MatrixPlaceholder.Kind`. -/
inductive MatrixPlaceholder.Kind
  | code
  | output
  | secretOutput
deriving DecidableEq, Repr

namespace MatrixPlaceholder.Kind

def getSymbol : MatrixPlaceholder.Kind → JString
  | code => jstr "#"
  | output => jstr "!"
  | secretOutput => jstr "?"

def tryFindKindBy (symbol : JString) : Except JavaException MatrixPlaceholder.Kind :=
  findKindBy [code, output, secretOutput] getSymbol symbol

end MatrixPlaceholder.Kind

/-- A placeholder for the code of a program or for a line of its output. -/
structure MatrixPlaceholder where
  width : ℕ
  height : ℕ
  index : ℕ
  lineIndex : ℕ
  kind : MatrixPlaceholder.Kind
deriving DecidableEq, Repr

namespace MatrixPlaceholder

/-- `\d\d`. -/
def twoDigits : Pattern JChar := .seq (.one isDigit) (.one isDigit)

/-- `MATRIX_PLACEHOLDER_PATTERN`: `^\s*([#!?])(\d\d)(/\d\d)?(-*)(\\*)$\s*`. -/
def matrixPlaceholderPattern : Pattern JChar :=
  .seq beginAnchor <| .seq (.many isSpace) <|
  .seq (.group 1 (.one fun c => c = chr '#' || c = chr '!' || c = chr '?')) <|
  .seq (.group 2 twoDigits) <|
  .seq (.optional (.group 3 (.seq (.word [chr '/']) twoDigits))) <|
  .seq (.group 4 (.many (· = chr '-'))) <| .seq (.group 5 (.many (· = chr '\\'))) <|
  .seq endAnchor (.many isSpace)

def isMatrixPlaceholder (text : JString) : Bool :=
  (matrixPlaceholderPattern.matchWhole text).isSome

def parse (text : JString) : Except JavaException MatrixPlaceholder :=
  match matrixPlaceholderPattern.matchWhole text with
  | none => .error .illegalArgumentException
  | some m => do
    -- only group 3 is optional in the pattern, so only group 3 can be `null`
    let kind := (m.group 1).getD []
    let indexStr := (m.group 2).getD []
    let lineIndexStr := m.group 3
    let minusesStr := (m.group 4).getD []
    let slashesStr := (m.group 5).getD []
    let index := parseInt indexStr
    let lineIndex := (lineIndexStr.map fun s => parseInt (s.drop 1)).getD 0
    let width := kind.length + indexStr.length + (lineIndexStr.map List.length).getD 0 +
      minusesStr.length
    let height := 1 + slashesStr.length
    let foundKind ← Kind.tryFindKindBy kind
    pure ⟨width, height, index, lineIndex, foundKind⟩

def repr (placeholder : MatrixPlaceholder) : JString :=
  let suffix :=
    if placeholder.kind ≠ .code then chr '/' :: format02d placeholder.lineIndex else []
  placeholder.kind.getSymbol ++ (format02d placeholder.index ++ suffix)

end MatrixPlaceholder

/-! ### Line placeholders -/

/-- `LinePlaceholder.Kind`. -/
inductive LinePlaceholder.Kind
  | group
  | kind
deriving DecidableEq, Repr

namespace LinePlaceholder.Kind

def getSymbol : LinePlaceholder.Kind → JString
  | group => jstr "$G"
  | kind => jstr "$KIND"

def tryFindKindBy (symbol : JString) : Except JavaException LinePlaceholder.Kind :=
  findKindBy [group, kind] getSymbol symbol

end LinePlaceholder.Kind

/-- A placeholder for the group or the kind of the exam. -/
structure LinePlaceholder where
  width : ℕ
  kind : LinePlaceholder.Kind
deriving DecidableEq, Repr

namespace LinePlaceholder

/-- The characters of a word in either case; `upper` is the word in upper case, of ASCII letters. -/
def wordIgnoringCase : JString → Pattern JChar
  | [] => .empty
  | c :: upper =>
    .seq (.one fun d => d = c || d = c + (chr 'a' - chr 'A')) (wordIgnoringCase upper)

/-- `LINE_PLACEHOLDER_PATTERN`: `^\s*\$\s*((?i)G|KIND)\s*$`; the flag `(?i)` holds for both
alternatives. -/
def linePlaceholderPattern : Pattern JChar :=
  .seq beginAnchor <| .seq (.many isSpace) <| .seq (.word [chr '$']) <| .seq (.many isSpace) <|
  .seq (.group 1 (.alt (wordIgnoringCase (jstr "G")) (wordIgnoringCase (jstr "KIND")))) <|
  .seq (.many isSpace) endAnchor

def isLinePlaceholder (text : JString) : Bool :=
  (linePlaceholderPattern.matchWhole text).isSome

/-- The symbol is looked up as it is written: a placeholder in lower case is recognised by
`isLinePlaceholder` but refused here. -/
def parse (text : JString) : Except JavaException LinePlaceholder := do
  checkArgument (isLinePlaceholder text)
  let kindSymbol := removeAllWhitespaces text
  let width := kindSymbol.length
  let foundKind ← Kind.tryFindKindBy kindSymbol
  pure ⟨width, foundKind⟩

end LinePlaceholder

/-! ### Placeholders -/

/-- `Placeholder`. -/
inductive Placeholder
  | matrix (placeholder : MatrixPlaceholder)
  | line (placeholder : LinePlaceholder)
deriving DecidableEq, Repr

end ExamGeneratorNg
