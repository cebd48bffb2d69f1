import ExamGeneratorNg.Equiv.ListUtils
import ExamGeneratorNg.LineTemplateParsing
import ExamGeneratorNg.Regex.Lemmas
import Mathlib.Data.List.TakeWhile
import Mathlib.Tactic.Common

/-!
# Correctness of `parseNormalizedLine`

A line cut at its gaps is a `GappedLine`: a text, then gaps and texts in turn.  `gapSplit` cuts a
line at the leftmost gap, again and again, on the line itself; `parseNormalizedLine` does so with
a regular expression, a list of ranges, two ghost ranges and `substring`.
`parseNormalizedLine_eq`: the two agree on every line, so the parser never throws.

The proof goes through the scan of the gap pattern (`scan_gapPattern`: the matches it finds are
those of the cut line, `matchesFrom`) and the path through the ranges (`mapM_mapPath_matches`: every
`substring` is in range and cuts out the right piece).
-/

namespace ExamGeneratorNg

open Regex

/-! ### Lines cut at their gaps -/

/-- What may stand in a gap: a non-empty string without an underscore. -/
structure GapContent where
  content : JString
  ne_nil : content ≠ []
  underscore_not_mem : chr '_' ∉ content

/-- A line cut at its gaps: the text in front, then each gap with the text behind it. -/
structure GappedLine where
  text : JString
  tail : List (GapContent × JString)

/-- The gap with its markers, and the text behind it. -/
def printGap (p : GapContent × JString) : JString :=
  gapMarker ++ p.1.content ++ gapMarker ++ p.2

namespace GappedLine

/-- The line as it is written. -/
def print (line : GappedLine) : JString := line.text ++ line.tail.flatMap printGap

/-- The nodes of the line. -/
def nodes (line : GappedLine) : List LineNode :=
  .text line.text :: line.tail.flatMap fun p => [.gap p.1.content, .text p.2]

end GappedLine

/-! ### The gap a string starts with -/

/-- The gap the string starts with, and what stands behind it. -/
def gapAt : JString → Option (GapContent × JString)
  | a :: b :: s =>
    if ha : [a, b] = gapMarker ∧ s.takeWhile (· ≠ chr '_') ≠ [] ∧
        gapMarker <+: s.dropWhile (· ≠ chr '_') then
      some (⟨s.takeWhile (· ≠ chr '_'), ha.2.1, fun h => by simpa using List.mem_takeWhile_imp h⟩,
        (s.dropWhile (· ≠ chr '_')).drop 2)
    else none
  | _ => none

/-- An underscore-free run in front of an underscore ends there. -/
theorem takeWhile_append_marker {g : JString} (hg : chr '_' ∉ g) (rest : JString) :
    (g ++ gapMarker ++ rest).takeWhile (· ≠ chr '_') = g ∧
      (g ++ gapMarker ++ rest).dropWhile (· ≠ chr '_') = gapMarker ++ rest := by
  have hall : ∀ c ∈ g, decide (c ≠ chr '_') = true := by
    intro c hc
    rw [decide_eq_true_eq]
    rintro rfl
    exact hg hc
  rw [List.append_assoc]
  constructor
  · rw [List.takeWhile_append_of_pos hall]
    simp [gapMarker]
  · rw [List.dropWhile_append_of_pos hall]
    simp [gapMarker]

/-- What is written as a gap is read as that gap. -/
theorem gapAt_printGap (g : GapContent) (rest : JString) :
    gapAt (gapMarker ++ g.content ++ gapMarker ++ rest) = some (g, rest) := by
  obtain ⟨htake, hdrop⟩ := takeWhile_append_marker g.underscore_not_mem rest
  have hform : gapMarker ++ g.content ++ gapMarker ++ rest
      = chr '_' :: chr '_' :: (g.content ++ gapMarker ++ rest) := by
    simp [gapMarker]
  rw [hform, gapAt, dif_pos ⟨rfl, by rw [htake]; exact g.ne_nil, by rw [hdrop]; simp⟩]
  simp only [htake, hdrop]
  rfl

/-- What is read as a gap is written there. -/
theorem eq_of_gapAt {s rest : JString} {g : GapContent} (h : gapAt s = some (g, rest)) :
    s = gapMarker ++ g.content ++ gapMarker ++ rest := by
  unfold gapAt at h
  split at h
  · next a b s =>
    split_ifs at h with ha
    have hab := ha.1
    obtain ⟨u, hu⟩ := ha.2.2
    simp only [Option.some.injEq, Prod.mk.injEq] at h
    obtain ⟨rfl, rfl⟩ := h
    have hsplit : s.takeWhile (· ≠ chr '_') ++ s.dropWhile (· ≠ chr '_') = s :=
      List.takeWhile_append_dropWhile
    have hab' : a :: b :: s = gapMarker ++ s := by
      rw [← hab]
      rfl
    rw [hab', ← hu]
    conv_lhs => rw [← hsplit, ← hu]
    simp [gapMarker]
  · exact absurd h (by simp)

theorem length_lt_of_gapAt {s rest : JString} {g : GapContent} (h : gapAt s = some (g, rest)) :
    rest.length < s.length := by
  rw [eq_of_gapAt h]
  simp [gapMarker]
  omega

/-- Two characters that are not both underscores start no gap. -/
theorem gapAt_cons_cons_of_ne {a b : JChar} (h : ¬(a = chr '_' ∧ b = chr '_')) (s : JString) :
    gapAt (a :: b :: s) = none := by
  rw [gapAt, dif_neg]
  rintro ⟨hab, -⟩
  simp only [gapMarker, List.cons.injEq, and_true] at hab
  exact h hab

/-- A marker is no gap if the next underscore does not begin a marker. -/
theorem gapAt_marker_of_ne {g s : JString} (hg : chr '_' ∉ g) (hs : ¬ gapMarker <+: chr '_' :: s) :
    gapAt (gapMarker ++ g ++ chr '_' :: s) = none := by
  have hall : ∀ c ∈ g, decide (c ≠ chr '_') = true := by
    intro c hc
    rw [decide_eq_true_eq]
    rintro rfl
    exact hg hc
  have hdrop : (g ++ chr '_' :: s).dropWhile (· ≠ chr '_') = chr '_' :: s := by
    rw [List.dropWhile_append_of_pos hall]
    simp
  show gapAt (chr '_' :: chr '_' :: (g ++ chr '_' :: s)) = none
  rw [gapAt, dif_neg]
  rintro ⟨-, -, hmarker⟩
  rw [hdrop] at hmarker
  exact hs hmarker

/-- A string starting with a marker and no underscore behind it starts with no gap. -/
theorem gapAt_marker_of_not_mem {s : JString} (hs : chr '_' ∉ s) :
    gapAt (gapMarker ++ s) = none := by
  have hall : ∀ c ∈ s, decide (c ≠ chr '_') = true := by
    intro c hc
    rw [decide_eq_true_eq]
    rintro rfl
    exact hs hc
  have hdrop : s.dropWhile (· ≠ chr '_') = [] := List.dropWhile_eq_nil_iff.mpr hall
  show gapAt (chr '_' :: chr '_' :: s) = none
  rw [gapAt, dif_neg]
  rintro ⟨-, -, hmarker⟩
  rw [hdrop] at hmarker
  simp [gapMarker] at hmarker

/-- A character that is no underscore has no part in the gap in front of it. -/
theorem gapAt_concat {s : JString} {c : JChar} (hc : c ≠ chr '_') :
    gapAt (s ++ [c]) = (gapAt s).map fun p => (p.1, p.2 ++ [c]) := by
  cases h : gapAt s with
  | some p =>
    obtain ⟨g, rest⟩ := p
    rw [eq_of_gapAt h, List.append_assoc, gapAt_printGap]
    rfl
  | none =>
    cases h' : gapAt (s ++ [c]) with
    | none => rfl
    | some p =>
      obtain ⟨g, rest⟩ := p
      have heq := eq_of_gapAt h'
      rcases List.eq_nil_or_concat' rest with rfl | ⟨rest, d, rfl⟩
      · -- the gap would end in an underscore
        have hend : gapMarker ++ g.content ++ gapMarker ++ []
            = gapMarker ++ g.content ++ [chr '_'] ++ [chr '_'] := by simp [gapMarker]
        have hlast := (List.append_inj' (heq.trans hend) rfl).2
        exact absurd (List.singleton_inj.mp hlast) hc
      · rw [← List.append_assoc] at heq
        have hs := (List.append_inj' heq rfl).1
        rw [hs, gapAt_printGap] at h
        cases h

/-! ### Cutting a line at its gaps -/

/-- The line cut at its leftmost gap, and the rest of it cut likewise. -/
def gapSplit (s : JString) : GappedLine :=
  match _h : gapAt s with
  | some (g, rest) => ⟨[], (g, (gapSplit rest).text) :: (gapSplit rest).tail⟩
  | none =>
    match s with
    | [] => ⟨[], []⟩
    | c :: cs => ⟨c :: (gapSplit cs).text, (gapSplit cs).tail⟩
termination_by s.length
decreasing_by
  · exact length_lt_of_gapAt _h
  · simp

theorem gapSplit_nil : gapSplit [] = ⟨[], []⟩ := by
  rw [gapSplit]
  rfl

theorem gapSplit_of_gapAt {s rest : JString} {g : GapContent} (h : gapAt s = some (g, rest)) :
    gapSplit s = ⟨[], (g, (gapSplit rest).text) :: (gapSplit rest).tail⟩ := by
  rw [gapSplit]
  split
  · next g' rest' h' =>
    rw [h, Option.some.injEq, Prod.mk.injEq] at h'
    obtain ⟨rfl, rfl⟩ := h'
    rfl
  · next h' => rw [h] at h'; exact absurd h' (by simp)

theorem gapSplit_cons_of_none {c : JChar} {cs : JString} (h : gapAt (c :: cs) = none) :
    gapSplit (c :: cs) = ⟨c :: (gapSplit cs).text, (gapSplit cs).tail⟩ := by
  rw [gapSplit]
  split
  · next h' => rw [h] at h'; exact absurd h' (by simp)
  · rfl

/-- The cases of a cut: a gap, the end of the line, or a character of the text in front. -/
theorem gapSplit_induction {P : JString → Prop}
    (gap : ∀ s g rest, gapAt s = some (g, rest) → P rest → P s) (nil : P [])
    (text : ∀ c cs, gapAt (c :: cs) = none → P cs → P (c :: cs)) (s : JString) : P s := by
  induction hn : s.length using Nat.strong_induction_on generalizing s with
  | _ n ih =>
    subst hn
    cases h : gapAt s with
    | some p => exact gap s p.1 p.2 h (ih _ (length_lt_of_gapAt h) _ rfl)
    | none =>
      cases s with
      | nil => exact nil
      | cons c cs => exact text c cs h (ih _ (by simp) _ rfl)

/-- **Nothing is lost**: the cut line is written as the line was. -/
theorem print_gapSplit (s : JString) : (gapSplit s).print = s := by
  induction s using gapSplit_induction with
  | gap s g rest h ih =>
    rw [gapSplit_of_gapAt h]
    conv_rhs => rw [eq_of_gapAt h, ← ih]
    simp [GappedLine.print, printGap]
  | nil => rw [gapSplit_nil]; rfl
  | text c cs h ih =>
    rw [gapSplit_cons_of_none h]
    conv_rhs => rw [← ih]
    simp [GappedLine.print]

/-- A line in which no gap starts is all text. -/
theorem gapSplit_eq_text {s : JString} (h : ∀ t rest, s = t ++ rest → gapAt rest = none) :
    gapSplit s = ⟨s, []⟩ := by
  induction s with
  | nil => exact gapSplit_nil
  | cons c cs ih =>
    rw [gapSplit_cons_of_none (h [] (c :: cs) rfl), ih]
    intro t rest hcs
    exact h (c :: t) rest (by rw [hcs]; rfl)

/-- A text in which no gap starts, given what stands behind it, is kept as it is. -/
theorem gapSplit_append {t rest : JString}
    (h : ∀ t₁ t₂, t = t₁ ++ t₂ → t₂ ≠ [] → gapAt (t₂ ++ rest) = none) :
    gapSplit (t ++ rest) = ⟨t ++ (gapSplit rest).text, (gapSplit rest).tail⟩ := by
  induction t with
  | nil => rfl
  | cons c t ih =>
    have hhere : gapAt (c :: (t ++ rest)) = none := h [] (c :: t) rfl (by simp)
    rw [List.cons_append, gapSplit_cons_of_none hhere, ih]
    · rfl
    · intro t₁ t₂ ht ht₂
      exact h (c :: t₁) t₂ (by rw [ht]; rfl) ht₂

/-! ### The scan of the gap pattern -/

/-- The gap pattern matches where a gap starts, and the match is the gap. -/
theorem lookingAt_gapPattern (before s : JString) :
    gapPattern.lookingAt before s = (gapAt s).map fun p =>
      ⟨before.length, before.length + p.1.content.length + 4, [(1, p.1.content)]⟩ := by
  -- the second marker refuses what the content reads, so the content is read as far as it goes
  have hrefuse : ∀ (before : JString) a as groups, decide (a ≠ chr '_') = true →
      (Pattern.word gapMarker).ends ⟨before, a :: as, groups⟩ = [] := by
    intro before a as groups ha
    apply Pattern.ends_word_eq_nil
    rintro ⟨u, hu⟩
    rw [decide_eq_true_eq] at ha
    exact ha (List.cons.inj hu).1.symm
  unfold Pattern.lookingAt gapPattern
  rw [Pattern.ends_seq]
  by_cases hmarker : gapMarker <+: s
  · obtain ⟨s, rfl⟩ := hmarker
    rw [Pattern.ends_word_append, List.flatMap_cons, List.flatMap_nil, List.append_nil,
      Pattern.ends_seq_group_many1 hrefuse]
    cases hgap : gapAt (gapMarker ++ s) with
    | some p =>
      obtain ⟨g, rest⟩ := p
      have hs : s = g.content ++ gapMarker ++ rest := by
        have := eq_of_gapAt hgap
        simpa only [List.append_assoc, List.append_cancel_left_eq] using this
      obtain ⟨htake, hdrop⟩ := takeWhile_append_marker g.underscore_not_mem rest
      rw [hs, htake, hdrop, if_neg g.ne_nil, Pattern.ends_word_append]
      simp [gapMarker]
      omega
    | none =>
      by_cases htake : s.takeWhile (· ≠ chr '_') = []
      · rw [if_pos htake]
        rfl
      · rw [if_neg htake, Pattern.ends_word_eq_nil]
        · rfl
        · intro hdrop
          have hsome : gapAt (gapMarker ++ s) ≠ none := by
            show gapAt (chr '_' :: chr '_' :: s) ≠ none
            rw [gapAt, dif_pos ⟨rfl, htake, hdrop⟩]
            simp
          exact hsome hgap
  · rw [Pattern.ends_word_eq_nil hmarker, List.flatMap_nil]
    cases hgap : gapAt s with
    | some p =>
      obtain ⟨g, rest⟩ := p
      have := eq_of_gapAt hgap
      rw [this, List.append_assoc, List.append_assoc] at hmarker
      exact absurd (List.prefix_append _ _) hmarker
    | none => rfl

/-- The matches of a line that is cut into `text` and `tail`, from position `off` on. -/
def matchesFrom (off : ℕ) (text : JString) : List (GapContent × JString) → List (MatchResult JChar)
  | [] => []
  | p :: tail =>
    ⟨off + text.length, off + text.length + p.1.content.length + 4, [(1, p.1.content)]⟩ ::
      matchesFrom (off + text.length + p.1.content.length + 4) p.2 tail

theorem matchesFrom_cons_text (off : ℕ) (c : JChar) (text : JString)
    (tail : List (GapContent × JString)) :
    matchesFrom off (c :: text) tail = matchesFrom (off + 1) text tail := by
  cases tail with
  | nil => rfl
  | cons p tail => simp [matchesFrom, Nat.add_comm, Nat.add_left_comm]

/-- The scan of the gap pattern finds the gaps of the cut line. -/
theorem scan_gapPattern (s before : JString) :
    gapPattern.scan 0 before s
      = matchesFrom before.length (gapSplit s).text (gapSplit s).tail := by
  induction s using gapSplit_induction generalizing before with
  | gap s g rest h ih =>
    -- the scan goes on behind the gap
    have hlook := lookingAt_gapPattern before s
    rw [h] at hlook
    have hs := eq_of_gapAt h
    rw [gapSplit_of_gapAt h]
    rw [hs] at hlook ⊢
    have hlen : ((gapMarker ++ g.content ++ gapMarker).reverse ++ before).length
        = before.length + [].length (α := JChar) + g.content.length + 4 := by
      simp [gapMarker]
      omega
    rw [Pattern.scan_of_lookingAt (by simp [gapMarker]) hlook (by simp [gapMarker]; omega), ih,
      hlen]
    rfl
  | nil =>
    rw [gapSplit_nil]
    rw [Pattern.scan, lookingAt_gapPattern]
    rfl
  | text c cs h ih =>
    -- the scan goes on at the next character
    have hlook := lookingAt_gapPattern before (c :: cs)
    rw [h] at hlook
    rw [Pattern.scan_cons_of_none hlook, ih, gapSplit_cons_of_none h, matchesFrom_cons_text]
    rfl

/-! ### The path through the ranges -/

theorem substring_append (a b c : JString) {i j : ℤ} (hi : i = a.length)
    (hj : j = a.length + b.length) : substring (a ++ b ++ c) i j = .ok b := by
  subst hi hj
  have hlength : (a ++ b ++ c).length = a.length + b.length + c.length := by
    rw [List.length_append, List.length_append]
  have hj : ((a.length : ℤ) + b.length).toNat = (a ++ b).length := by
    rw [List.length_append]
    omega
  rw [substring, if_pos (by omega), hj, Int.toNat_natCast, List.take_left, List.drop_left]

/-- The range of a match. -/
def matchRange (m : MatchResult JChar) : Range := ⟨m.start, m.stop⟩

/-- The path through the ranges of a cut line, from the range `v0` that ends behind `lead` on. -/
theorem mapM_mapPath_matches (lineStr : JString) (tail : List (GapContent × JString)) :
    ∀ (text lead : JString) (v0 : Range),
      lineStr = lead ++ (text ++ tail.flatMap printGap) → v0.end = lead.length →
      (mapPath ((matchesFrom lead.length text tail).map matchRange)
        (fun v => LineNode.gap <$> extractGapContent lineStr v)
        (fun v0 v1 => LineNode.text <$> extractTextContent lineStr v0 v1)
        v0 ⟨lineStr.length, -1⟩).mapM id
        = .ok (GappedLine.mk text tail).nodes := by
  induction tail with
  | nil =>
    intro text lead v0 hline hv0
    have htext : extractTextContent lineStr v0 ⟨lineStr.length, -1⟩ = .ok text := by
      rw [extractTextContent, hv0]
      have := substring_append lead text [] (i := lead.length) (j := lineStr.length) rfl
        (by rw [hline]; simp)
      simpa [hline] using this
    rw [matchesFrom, List.map_nil, mapPath_nil, htext]
    rfl
  | cons p tail ih =>
    intro text lead v0 hline hv0
    obtain ⟨g, text'⟩ := p
    -- what precedes the text behind the gap
    set lead' := lead ++ text ++ gapMarker ++ g.content ++ gapMarker with hlead'
    have hlen' : lead'.length = lead.length + text.length + g.content.length + 4 := by
      simp [hlead', gapMarker]
      omega
    set v1 : Range := ⟨(lead.length + text.length : ℕ), (lead'.length : ℕ)⟩ with hv1
    have htext : extractTextContent lineStr v0 v1 = .ok text := by
      rw [extractTextContent, hv0, hline, ← List.append_assoc]
      exact substring_append lead text _ rfl (by simp [hv1])
    have hgap : extractGapContent lineStr v1 = .ok g.content := by
      have hcut : lineStr = (lead ++ text ++ gapMarker) ++ g.content
          ++ (gapMarker ++ text' ++ tail.flatMap printGap) := by
        simp [hline, printGap]
      rw [extractGapContent, hcut]
      apply substring_append
      · simp [hv1, gapMarker]
        omega
      · simp [hv1, hlen', gapMarker]
        omega
    have hrest := ih text' lead' v1 (by simp [hline, hlead', printGap]) rfl
    have hmatches : (matchesFrom lead.length text ((g, text') :: tail)).map matchRange
        = v1 :: (matchesFrom lead'.length text' tail).map matchRange := by
      rw [matchesFrom, List.map_cons, hlen', hv1, hlen']
      rfl
    rw [hmatches, mapPath_cons, List.mapM_cons, List.mapM_cons, hrest, htext, hgap]
    rfl

/-- `parseNormalizedLine` is the loop of `mapPath` with mappers that may throw, and ends where one
of them does. -/
theorem parseNormalizedLine_eq_mapPathM (lineStr : JString) :
    parseNormalizedLine lineStr
      = mapPathM ((gapPattern.findAll lineStr).map fun m => (⟨m.start, m.stop⟩ : Range))
        (fun v => LineNode.gap <$> extractGapContent lineStr v)
        (fun v0 v1 => LineNode.text <$> extractTextContent lineStr v0 v1)
        ⟨-1, 0⟩ ⟨lineStr.length, -1⟩ :=
  (mapPathM_eq _ _ _ _ _).symm

/-- **`parseNormalizedLine` cuts the line at its leftmost gaps**, and never throws. -/
theorem parseNormalizedLine_eq (lineStr : JString) :
    parseNormalizedLine lineStr = .ok (gapSplit lineStr).nodes := by
  have hline : lineStr
      = [] ++ ((gapSplit lineStr).text ++ (gapSplit lineStr).tail.flatMap printGap) := by
    conv_lhs => rw [← print_gapSplit lineStr]
    rfl
  have hpath := mapM_mapPath_matches lineStr (gapSplit lineStr).tail (gapSplit lineStr).text []
    ⟨-1, 0⟩ hline rfl
  rw [parseNormalizedLine, Pattern.findAll, scan_gapPattern]
  exact hpath

end ExamGeneratorNg
