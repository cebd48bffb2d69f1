import Mathlib.Data.List.Basic

/-!
# Backtracking regular expressions

The patterns of a backtracking matcher, over an arbitrary alphabet, and the three ways a matcher
is asked about a subject: does it match as a whole, where is the next match, what are all the
matches.

A pattern is given its meaning by `Pattern.ends`: the cursors at which a match that starts at a
given cursor can end, *in the order in which the backtracking matcher tries them*.  The first one
is the match; the others matter only because what follows in the pattern may refuse the first.
Repetition is limited to a class of single characters (`Pattern.many`), which is what keeps the
matcher structurally recursive, and is always greedy.
-/

namespace Regex

/-- A place in the subject: the characters before it (nearest first), the characters after it,
and the groups captured so far (latest first). -/
structure Cursor (α : Type*) where
  before : List α
  after : List α
  groups : List (ℕ × List α)
deriving DecidableEq, Repr

/-- A pattern over the alphabet `α`. -/
inductive Pattern (α : Type*)
  /-- Matches the empty string. -/
  | empty
  /-- Matches one character of the class `p`. -/
  | one (p : α → Bool)
  /-- Matches a run of characters of the class `p`, as long a run as possible first. -/
  | many (p : α → Bool)
  /-- Matches `r₁`, then `r₂`. -/
  | seq (r₁ r₂ : Pattern α)
  /-- Matches `r₁`, or else `r₂`. -/
  | alt (r₁ r₂ : Pattern α)
  /-- Matches `r`, or else the empty string. -/
  | optional (r : Pattern α)
  /-- Matches `r` and captures what it matched as group `n`. -/
  | group (n : ℕ) (r : Pattern α)
  /-- Matches the empty string where the text before (nearest first) and after satisfies `f`. -/
  | look (f : List α → List α → Bool)

variable {α : Type*}

namespace Cursor

/-- What lies between the cursor `c` and a later cursor `d`. -/
def between (c d : Cursor α) : List α :=
  (d.before.take (d.before.length - c.before.length)).reverse

/-- The cursor `d` with what lies between `c` and `d` captured as group `n`. -/
def capture (n : ℕ) (c d : Cursor α) : Cursor α :=
  { d with groups := (n, c.between d) :: d.groups }

end Cursor

/-- The cursors a greedy run of the class `p` can end at, the longest run first. -/
def manyEnds (p : α → Bool) (groups : List (ℕ × List α)) :
    List α → List α → List (Cursor α)
  | before, [] => [⟨before, [], groups⟩]
  | before, c :: cs =>
    if p c then manyEnds p groups (c :: before) cs ++ [⟨before, c :: cs, groups⟩]
    else [⟨before, c :: cs, groups⟩]

namespace Pattern

/-- The cursors at which a match starting at the given cursor can end, in the order in which
they are tried. -/
def ends : Pattern α → Cursor α → List (Cursor α)
  | empty, c => [c]
  | one p, c =>
    match c.after with
    | [] => []
    | a :: as => if p a then [⟨a :: c.before, as, c.groups⟩] else []
  | many p, c => manyEnds p c.groups c.before c.after
  | seq r₁ r₂, c => (r₁.ends c).flatMap r₂.ends
  | alt r₁ r₂, c => r₁.ends c ++ r₂.ends c
  | optional r, c => r.ends c ++ [c]
  | group n r, c => (r.ends c).map (Cursor.capture n c)
  | look f, c => if f c.before c.after then [c] else []

/-- The pattern that matches exactly the word `w`. -/
def word [DecidableEq α] : List α → Pattern α
  | [] => empty
  | a :: w => seq (one (· == a)) (word w)

/-- One or more characters of the class `p`. -/
def many1 (p : α → Bool) : Pattern α := seq (one p) (many p)

end Pattern

/-- A match: where it starts, where it stops (exclusive), and its groups. -/
structure MatchResult (α : Type*) where
  start : ℕ
  stop : ℕ
  groups : List (ℕ × List α)
deriving DecidableEq, Repr

/-- What the match captured as group `n`, if that group took part in it. -/
def MatchResult.group (m : MatchResult α) (n : ℕ) : Option (List α) := m.groups.lookup n

namespace Pattern

/-- The match that starts exactly between `before` (nearest first) and `after`. -/
def lookingAt (r : Pattern α) (before after : List α) : Option (MatchResult α) :=
  (r.ends ⟨before, after, []⟩).head?.map fun d => ⟨before.length, d.before.length, d.groups⟩

/-- The match of the subject as a whole. -/
def matchWhole (r : Pattern α) (s : List α) : Option (MatchResult α) :=
  ((r.ends ⟨[], s, []⟩).find? fun d => d.after.isEmpty).map fun d =>
    ⟨0, d.before.length, d.groups⟩

/-- The leftmost match that starts between `before` and `after` or later. -/
def findFrom (r : Pattern α) (before : List α) : List α → Option (MatchResult α)
  | [] => r.lookingAt before []
  | a :: as => (r.lookingAt before (a :: as)).orElse fun _ => findFrom r (a :: before) as

/-- The leftmost match in the subject. -/
def find (r : Pattern α) (s : List α) : Option (MatchResult α) := r.findFrom [] s

/-- The matches met while scanning `after`, when the next `skip` characters belong to the last
match.  A scan resumes where the last match stopped, and one further if that match was empty. -/
def scan (r : Pattern α) : ℕ → List α → List α → List (MatchResult α)
  | 0, before, [] => (r.lookingAt before []).toList
  | _ + 1, _, [] => []
  | 0, before, a :: as =>
    match r.lookingAt before (a :: as) with
    | none => scan r 0 (a :: before) as
    | some m => m :: scan r (m.stop - m.start - 1) (a :: before) as
  | skip + 1, before, a :: as => scan r skip (a :: before) as

/-- All the matches of a loop over the next match, in order. -/
def findAll (r : Pattern α) (s : List α) : List (MatchResult α) := r.scan 0 [] s

/-- The subject with the leftmost match replaced by `new`. -/
def replaceFirst (r : Pattern α) (s new : List α) : List α :=
  match r.find s with
  | none => s
  | some m => s.take m.start ++ new ++ s.drop m.stop

/-- The pieces of the subject from position `i` on, cut at the given matches. -/
def splitFrom (s : List α) (i : ℕ) : List (MatchResult α) → List (List α)
  | [] => [s.drop i]
  | m :: ms => (s.take m.start).drop i :: splitFrom s m.stop ms

/-- The pieces of the subject between the matches of `r`, trailing empty pieces included. -/
def split (r : Pattern α) (s : List α) : List (List α) := splitFrom s 0 (r.findAll s)

end Pattern

end Regex
