import ExamGeneratorNg.Regex.Basic

/-!
# Rules for backtracking patterns

Equations for `Pattern.ends`, one for each constructor and for the derived patterns, and the
rules for searching a subject.

* `ends_seq_many`: a greedy run in front of a pattern that refuses every character of the run's
  class has only one way to succeed, the longest run.
* `head?_ends_many_look`: a greedy run in front of an assertion that, wherever it holds inside the
  run, also holds behind it, takes the longest run first.
* `findFrom_append`, `scan_append`: a stretch of the subject at which no match starts is skipped.
* `scan_of_lookingAt`: a match that is met is recorded, and the scan goes on behind it.
-/

namespace Regex

variable {α : Type*}

/-! ### Greedy runs -/

namespace Cursor

/-- The cursor behind the longest run of the class `p`. -/
def skip (p : α → Bool) (c : Cursor α) : Cursor α :=
  ⟨(c.after.takeWhile p).reverse ++ c.before, c.after.dropWhile p, c.groups⟩

@[simp] theorem skip_before (p : α → Bool) (c : Cursor α) :
    (c.skip p).before = (c.after.takeWhile p).reverse ++ c.before := rfl

@[simp] theorem skip_after (p : α → Bool) (c : Cursor α) :
    (c.skip p).after = c.after.dropWhile p := rfl

@[simp] theorem skip_groups (p : α → Bool) (c : Cursor α) : (c.skip p).groups = c.groups := rfl

/-- Two cursors at one place have nothing between them but what the later one has read. -/
theorem between_of_before {c d : Cursor α} {w : List α} (h : d.before = w.reverse ++ c.before) :
    c.between d = w := by
  unfold between
  rw [h, List.length_append, Nat.add_sub_cancel, List.take_left', List.reverse_reverse]
  rfl

end Cursor

/-- The longest run comes first; every other candidate stops in front of a character of the
class, and skipping on from there leads to the longest run. -/
theorem manyEnds_eq_cons (p : α → Bool) (groups : List (ℕ × List α)) (before after : List α) :
    ∃ shorter, manyEnds p groups before after = Cursor.skip p ⟨before, after, groups⟩ :: shorter ∧
      ∀ d ∈ shorter, d.skip p = Cursor.skip p ⟨before, after, groups⟩ ∧
        ∃ t a as, d = ⟨t, a :: as, groups⟩ ∧ p a = true := by
  induction after generalizing before with
  | nil => exact ⟨[], rfl, by simp⟩
  | cons c cs ih =>
    by_cases hc : p c = true
    · -- one character less to skip leads to the same place
      have hskip : Cursor.skip p ⟨c :: before, cs, groups⟩
          = Cursor.skip p ⟨before, c :: cs, groups⟩ := by
        simp [Cursor.skip, List.takeWhile_cons_of_pos hc, List.dropWhile_cons_of_pos hc]
      obtain ⟨shorter, heq, hshorter⟩ := ih (c :: before)
      refine ⟨shorter ++ [⟨before, c :: cs, groups⟩], ?_, ?_⟩
      · rw [manyEnds, if_pos hc, heq, hskip]
        rfl
      · intro d hd
        rcases List.mem_append.mp hd with hd | hd
        · rw [← hskip]
          exact hshorter d hd
        · rw [List.mem_singleton] at hd
          subst hd
          exact ⟨rfl, before, c, cs, rfl, hc⟩
    · refine ⟨[], ?_, by simp⟩
      rw [manyEnds, if_neg hc]
      simp [Cursor.skip, List.takeWhile_cons_of_neg hc, List.dropWhile_cons_of_neg hc]

/-- What refuses every character of the class only succeeds behind the longest run. -/
theorem flatMap_manyEnds {β : Type*} {p : α → Bool} {k : Cursor α → List β}
    (hk : ∀ before a as groups, p a = true → k ⟨before, a :: as, groups⟩ = [])
    (groups : List (ℕ × List α)) (before after : List α) :
    (manyEnds p groups before after).flatMap k = k (Cursor.skip p ⟨before, after, groups⟩) := by
  obtain ⟨shorter, heq, hshorter⟩ := manyEnds_eq_cons p groups before after
  have hnil : shorter.flatMap k = [] := by
    rw [List.flatMap_eq_nil_iff]
    intro d hd
    obtain ⟨-, t, a, as, rfl, ha⟩ := hshorter d hd
    exact hk t a as groups ha
  rw [heq, List.flatMap_cons, hnil, List.append_nil]

namespace Pattern

/-! ### Equations for `ends` -/

theorem ends_one_cons (p : α → Bool) (before as : List α) (a : α) (groups : List (ℕ × List α)) :
    (one p).ends ⟨before, a :: as, groups⟩
      = if p a then [⟨a :: before, as, groups⟩] else [] := rfl

theorem ends_one_nil (p : α → Bool) (before : List α) (groups : List (ℕ × List α)) :
    (one p).ends ⟨before, [], groups⟩ = [] := rfl

theorem ends_many (p : α → Bool) (c : Cursor α) :
    (many p).ends c = manyEnds p c.groups c.before c.after := rfl

theorem ends_seq (r₁ r₂ : Pattern α) (c : Cursor α) :
    (seq r₁ r₂).ends c = (r₁.ends c).flatMap r₂.ends := rfl

theorem ends_look (f : List α → List α → Bool) (c : Cursor α) :
    (look f).ends c = if f c.before c.after then [c] else [] := rfl

/-- A greedy run in front of a pattern that refuses every character of the run's class. -/
theorem ends_seq_many {p : α → Bool} {r : Pattern α}
    (hr : ∀ before a as groups, p a = true → r.ends ⟨before, a :: as, groups⟩ = [])
    (c : Cursor α) : (seq (many p) r).ends c = r.ends (c.skip p) := by
  rw [ends_seq, ends_many, flatMap_manyEnds hr]

/-- The first candidate of a greedy run in front of an assertion that holds behind the run as
soon as it holds somewhere inside it. -/
theorem head?_ends_many_look {p : α → Bool} {f : List α → List α → Bool}
    (hf : ∀ before a as, p a = true → f before (a :: as) = true →
      f (((a :: as).takeWhile p).reverse ++ before) ((a :: as).dropWhile p) = true)
    (c : Cursor α) :
    ((seq (many p) (look f)).ends c).head?
      = if f (c.skip p).before (c.skip p).after then some (c.skip p) else none := by
  obtain ⟨shorter, heq, hshorter⟩ := manyEnds_eq_cons p c.groups c.before c.after
  rw [ends_seq, ends_many, heq, List.flatMap_cons, ends_look]
  by_cases hskip : f (c.skip p).before (c.skip p).after = true
  · rw [if_pos hskip, if_pos hskip]
    rfl
  · -- where the assertion fails behind the run it fails behind every shorter run
    have hnil : shorter.flatMap (look f).ends = [] := by
      rw [List.flatMap_eq_nil_iff]
      intro d hd
      obtain ⟨hd, t, a, as, rfl, ha⟩ := hshorter d hd
      rw [ends_look, if_neg]
      intro hfd
      apply hskip
      have hbehind : f (Cursor.skip p ⟨t, a :: as, c.groups⟩).before
          (Cursor.skip p ⟨t, a :: as, c.groups⟩).after = true := hf t a as ha hfd
      rwa [hd] at hbehind
    rw [if_neg hskip, if_neg hskip, List.nil_append, hnil]
    rfl

section Word

variable [DecidableEq α]

/-- A word matches in at most one way: by being there. -/
theorem ends_word_append (w before rest : List α) (groups : List (ℕ × List α)) :
    (word w).ends ⟨before, w ++ rest, groups⟩ = [⟨w.reverse ++ before, rest, groups⟩] := by
  induction w generalizing before with
  | nil => rfl
  | cons a w ih =>
    rw [word, ends_seq, List.cons_append, ends_one_cons, if_pos (by simp), List.flatMap_cons,
      List.flatMap_nil, List.append_nil, ih]
    simp

theorem ends_word_eq_nil {w after : List α} (h : ¬ w <+: after) (before : List α)
    (groups : List (ℕ × List α)) : (word w).ends ⟨before, after, groups⟩ = [] := by
  induction w generalizing before after with
  | nil => exact absurd List.nil_prefix h
  | cons a w ih =>
    cases after with
    | nil => rw [word, ends_seq, ends_one_nil, List.flatMap_nil]
    | cons b bs =>
      rw [word, ends_seq, ends_one_cons]
      by_cases hb : b = a
      · subst hb
        rw [if_pos (by simp), List.flatMap_cons, List.flatMap_nil, List.append_nil]
        exact ih (fun hw => h (by simpa using hw)) _
      · rw [if_neg (by simpa using hb), List.flatMap_nil]

end Word

/-- A captured single character. -/
theorem ends_group_one (n : ℕ) (p : α → Bool) (before as : List α) (a : α)
    (groups : List (ℕ × List α)) :
    (group n (one p)).ends ⟨before, a :: as, groups⟩
      = if p a then [⟨a :: before, as, (n, [a]) :: groups⟩] else [] := by
  show List.map _ ((one p).ends ⟨before, a :: as, groups⟩) = _
  rw [ends_one_cons]
  by_cases hp : p a = true
  · rw [if_pos hp, if_pos hp, List.map_singleton, Cursor.capture,
      Cursor.between_of_before (w := [a]) rfl]
  · rw [if_neg hp, if_neg hp]
    rfl

/-- A captured non-empty greedy run in front of a pattern that refuses every character of the
run's class. -/
theorem ends_seq_group_many1 {n : ℕ} {p : α → Bool} {r : Pattern α}
    (hr : ∀ before a as groups, p a = true → r.ends ⟨before, a :: as, groups⟩ = [])
    (before after : List α) (groups : List (ℕ × List α)) :
    (seq (group n (many1 p)) r).ends ⟨before, after, groups⟩
      = if after.takeWhile p = [] then []
        else r.ends ⟨(after.takeWhile p).reverse ++ before, after.dropWhile p,
          (n, after.takeWhile p) :: groups⟩ := by
  have hends : (seq (group n (many1 p)) r).ends ⟨before, after, groups⟩
      = ((many1 p).ends ⟨before, after, groups⟩).flatMap fun d =>
          r.ends (Cursor.capture n ⟨before, after, groups⟩ d) := by
    show List.flatMap _ (List.map _ _) = _
    rw [List.flatMap_map]
  rw [hends]
  cases after with
  | nil => rfl
  | cons a as =>
    rw [many1, ends_seq, ends_one_cons]
    by_cases ha : p a = true
    · have hskip : Cursor.skip p ⟨a :: before, as, groups⟩
          = Cursor.skip p ⟨before, a :: as, groups⟩ := by
        simp [Cursor.skip, List.takeWhile_cons_of_pos ha, List.dropWhile_cons_of_pos ha]
      -- capturing does not move the cursor
      have hk : ∀ before' b bs groups', p b = true →
          r.ends (Cursor.capture n ⟨before, a :: as, groups⟩ ⟨before', b :: bs, groups'⟩) = [] :=
        fun before' b bs groups' hb => hr before' b bs _ hb
      rw [if_pos ha, if_neg (by simp [List.takeWhile_cons_of_pos ha]), List.flatMap_cons,
        List.flatMap_nil, List.append_nil, ends_many, flatMap_manyEnds hk, hskip,
        Cursor.capture, Cursor.between_of_before (w := (a :: as).takeWhile p) rfl]
      rfl
    · rw [if_neg ha, if_pos (by simp [List.takeWhile_cons_of_neg ha])]
      rfl

/-! ### Searching -/

theorem findFrom_cons_of_none {r : Pattern α} {before as : List α} {a : α}
    (h : r.lookingAt before (a :: as) = none) :
    r.findFrom before (a :: as) = r.findFrom (a :: before) as := by
  rw [findFrom, h]
  rfl

theorem findFrom_of_lookingAt {r : Pattern α} {before after : List α} {m : MatchResult α}
    (h : r.lookingAt before after = some m) : r.findFrom before after = some m := by
  cases after with
  | nil => exact h
  | cons a as =>
    rw [findFrom, h]
    rfl

/-- A stretch `t` of the subject at which no match starts is skipped. -/
theorem findFrom_append {r : Pattern α} {t : List α} :
    ∀ {before rest : List α},
      (∀ t₁ t₂, t = t₁ ++ t₂ → t₂ ≠ [] →
        r.lookingAt (t₁.reverse ++ before) (t₂ ++ rest) = none) →
      r.findFrom before (t ++ rest) = r.findFrom (t.reverse ++ before) rest := by
  induction t with
  | nil => intro before rest _; rfl
  | cons a t ih =>
    intro before rest h
    have hhere : r.lookingAt before (a :: (t ++ rest)) = none := h [] (a :: t) rfl (by simp)
    rw [List.cons_append, findFrom_cons_of_none hhere, ih]
    · simp
    · intro t₁ t₂ ht ht₂
      have := h (a :: t₁) t₂ (by rw [ht]; rfl) ht₂
      simpa using this

/-- A subject at no place of which a match starts has no match. -/
theorem find_eq_none {r : Pattern α} {s : List α}
    (h : ∀ t rest, s = t ++ rest → r.lookingAt t.reverse rest = none) : r.find s = none := by
  have hskip : r.findFrom [] (s ++ []) = r.findFrom (s.reverse ++ []) [] := by
    apply findFrom_append
    intro t₁ t₂ hs _
    have := h t₁ t₂ hs
    simpa using this
  rw [List.append_nil] at hskip
  rw [find, hskip, List.append_nil]
  exact h s [] (by simp)

/-- The subject's first match is the one behind a stretch at which no match starts. -/
theorem find_append_of_lookingAt {r : Pattern α} {t rest : List α} {m : MatchResult α}
    (hskip : ∀ t₁ t₂, t = t₁ ++ t₂ → t₂ ≠ [] → r.lookingAt t₁.reverse (t₂ ++ rest) = none)
    (h : r.lookingAt t.reverse rest = some m) : r.find (t ++ rest) = some m := by
  rw [find, findFrom_append (by intro t₁ t₂ ht ht₂; simpa using hskip t₁ t₂ ht ht₂)]
  rw [List.append_nil]
  exact findFrom_of_lookingAt h

theorem replaceFirst_of_find_none {r : Pattern α} {s : List α} (h : r.find s = none)
    (new : List α) : r.replaceFirst s new = s := by
  rw [replaceFirst, h]

theorem replaceFirst_of_find_some {r : Pattern α} {s : List α} {m : MatchResult α}
    (h : r.find s = some m) (new : List α) :
    r.replaceFirst s new = s.take m.start ++ new ++ s.drop m.stop := by
  rw [replaceFirst, h]

/-! ### Scanning -/

/-- The rest of a match is skipped. -/
theorem scan_skip (r : Pattern α) (t before rest : List α) :
    r.scan t.length before (t ++ rest) = r.scan 0 (t.reverse ++ before) rest := by
  induction t generalizing before with
  | nil => rfl
  | cons a t ih =>
    rw [List.length_cons, List.cons_append, scan, ih]
    simp

theorem scan_cons_of_none {r : Pattern α} {before as : List α} {a : α}
    (h : r.lookingAt before (a :: as) = none) :
    r.scan 0 before (a :: as) = r.scan 0 (a :: before) as := by
  rw [scan, h]

/-- A non-empty match `t` is recorded and the scan goes on behind it. -/
theorem scan_of_lookingAt {r : Pattern α} {before t rest : List α} {m : MatchResult α}
    (ht : t ≠ []) (h : r.lookingAt before (t ++ rest) = some m)
    (hm : m.stop - m.start = t.length) :
    r.scan 0 before (t ++ rest) = m :: r.scan 0 (t.reverse ++ before) rest := by
  cases t with
  | nil => exact absurd rfl ht
  | cons a t =>
    rw [List.cons_append] at h
    rw [List.cons_append, scan, h]
    simp only
    rw [hm, List.length_cons, Nat.add_sub_cancel, scan_skip]
    simp

end Pattern

end Regex
