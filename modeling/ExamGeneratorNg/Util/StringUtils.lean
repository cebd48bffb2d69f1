import ExamGeneratorNg.Util.Java

/-!
# `util.StringUtils` and `util.RegexUtils`
-/

namespace ExamGeneratorNg

open Regex

/-- `new String(new char[n]).replace("\0", "" + c)`: every zero character of a string of `n` of
them is replaced by `c`. -/
def nCopiesOfChar (n : ℕ) (c : JChar) : JString :=
  (List.replicate n (0 : JChar)).flatMap fun d => if d = 0 then [c] else [d]

@[simp] theorem nCopiesOfChar_eq (n : ℕ) (c : JChar) : nCopiesOfChar n c = List.replicate n c := by
  unfold nCopiesOfChar
  induction n with
  | zero => rfl
  | succ n ih => rw [List.replicate_succ, List.flatMap_cons, ih]; rfl

/-- The pattern `\r?\n`. -/
def newlinePattern : Pattern JChar :=
  .seq (.optional (.one (· = chr '\r'))) (.one (· = chr '\n'))

/-- `str.split("\\r?\\n", -1)`. -/
def splitByNewline (str : JString) : List JString := newlinePattern.split str

/-- The lines without the last one if that is empty. -/
def stringToLines (str : JString) : Except JavaException (List JString) := do
  let parts := splitByNewline str
  let last ← listGet parts ((parts.length : ℤ) - 1)
  if last = [] then pure (parts.take (parts.length - 1))
  else pure parts

/-- Every line followed by a line feed. -/
def joinLines (lines : List JString) : JString := lines.flatMap (· ++ [chr '\n'])

/-- `string.replaceAll("\\s", "")`. -/
def removeAllWhitespaces (string : JString) : JString := string.filter fun c => !isSpace c

/-- `RegexUtils.removeFirst`. -/
def removeFirst (str : JString) (pattern : Pattern JChar) : JString := pattern.replaceFirst str []

end ExamGeneratorNg
