import ExamGeneratorNg.Regex.Basic
import Mathlib.Algebra.Group.Int.Defs
import Mathlib.Algebra.GroupWithZero.Nat

/-!
# What the program uses of the Java platform

A Java `String` is a sequence of UTF-16 code units, so `JString` is a list of 16-bit integers:
`length()` is the length of the list and positions are positions in the list.  None of the
program's patterns can tell a surrogate pair from two single units (their classes are ASCII, or
the complement of an ASCII character), so the patterns are patterns over code units too.
-/

namespace ExamGeneratorNg

open Regex

/-- A Java `char`: a UTF-16 code unit. -/
abbrev JChar := UInt16

/-- A Java `String`. -/
abbrev JString := List JChar

/-- The code unit of a character of the basic multilingual plane. -/
def chr (c : Char) : JChar := UInt16.ofNat c.toNat

/-- A string literal (of characters of the basic multilingual plane). -/
def jstr (s : String) : JString := s.toList.map chr

/-- Decided by the code units of the string, not by all code units there are. -/
instance decidableForallMem (p : JChar → Prop) [DecidablePred p] (s : JString) :
    Decidable (∀ c ∈ s, p c) := List.decidableBAll p s

/-- `toLowerCase()` of an ASCII string, in a locale without rules of its own. -/
def asciiToLowerCase (s : JString) : JString :=
  s.map fun c => if chr 'A' ≤ c && c ≤ chr 'Z' then c + (chr 'a' - chr 'A') else c

/-- The exceptions the modelled code can raise. -/
inductive JavaException
  | illegalArgumentException
  | illegalStateException
  | nullPointerException
  | indexOutOfBoundsException
  /-- A checked or unchecked input/output failure. -/
  | ioException
  /-- `exceptions.ExamTemplateRealizationException`, with its message. -/
  | examTemplateRealizationException (message : JString)
  /-- A `RuntimeException` around another exception. -/
  | runtimeException (cause : JavaException)
deriving DecidableEq, Repr

/-- `Preconditions.checkArgument`. -/
def checkArgument (b : Bool) : Except JavaException Unit :=
  if b then .ok () else .error .illegalArgumentException

theorem checkArgument_bind {α : Type} (b : Bool) (f : Unit → Except JavaException α) :
    (checkArgument b >>= f) = if b then f () else .error .illegalArgumentException := by
  cases b <;> rfl

/-- `Preconditions.checkState`. -/
def checkState (b : Bool) : Except JavaException Unit :=
  if b then .ok () else .error .illegalStateException

/-- `str.substring(begin, end)`. -/
def substring (str : JString) (i j : ℤ) : Except JavaException JString :=
  if 0 ≤ i ∧ i ≤ j ∧ j ≤ str.length then .ok ((str.take j.toNat).drop i.toNat)
  else .error .indexOutOfBoundsException

/-- `list.get(i)`. -/
def listGet {α : Type} (xs : List α) (i : ℤ) : Except JavaException α :=
  if i < 0 then .error .indexOutOfBoundsException
  else
    match xs[i.toNat]? with
    | some x => .ok x
    | none => .error .indexOutOfBoundsException

theorem listGet_append_cons {α : Type} (before : List α) (x : α) (after : List α) :
    listGet (before ++ x :: after) before.length = .ok x := by
  unfold listGet
  rw [if_neg (by omega), Int.toNat_natCast, List.getElem?_append_right (Nat.le_refl _),
    Nat.sub_self]
  rfl

theorem listGet_last {α : Type} (s : List α) (a : α) :
    listGet (s ++ [a]) (((s ++ [a]).length : ℤ) - 1) = .ok a := by
  have hlength : ((s ++ [a]).length : ℤ) - 1 = s.length := by
    rw [List.length_append]
    simp
  rw [hlength]
  exact listGet_append_cons s a []

/-! ### Character classes and anchors of `java.util.regex` -/

/-- The class `\s`. -/
def isSpace (c : JChar) : Bool :=
  c = chr ' ' || c = chr '\t' || c = chr '\n' || c = chr '\x0B' || c = chr '\x0C' || c = chr '\r'

/-- The class `\d`. -/
def isDigit (c : JChar) : Bool := chr '0' ≤ c && c ≤ chr '9'

/-- The class `[a-z]`. -/
def isLowercase (c : JChar) : Bool := chr 'a' ≤ c && c ≤ chr 'z'

/-- The line terminators: line feed, carriage return, next line, line and paragraph separator. -/
def isLineTerminator (c : JChar) : Bool :=
  c = chr '\n' || c = chr '\r' || c = 0x85 || c = 0x2028 || c = 0x2029

/-- The anchor `^`. -/
def beginAnchor : Pattern JChar := .look fun before _ => before.isEmpty

/-- Where `$` holds: at the end of the input, and before a line terminator that ends the input
(not inside a final `\r\n`). -/
def atEnd (before after : JString) : Bool :=
  match after with
  | [] => true
  | [c] => isLineTerminator c && !(c = chr '\n' && before.head? = some (chr '\r'))
  | [c, d] => c = chr '\r' && d = chr '\n'
  | _ => false

/-- The anchor `$`. -/
def endAnchor : Pattern JChar := .look atEnd

end ExamGeneratorNg
