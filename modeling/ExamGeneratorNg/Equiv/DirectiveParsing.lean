import ExamGeneratorNg.LineTemplateParsing
import ExamGeneratorNg.Regex.Lemmas
import Mathlib.Data.List.DropRight
import Mathlib.Tactic.Common

/-!
# Correctness of `normalizeLine`

`Directive s lead w v tail`: the string `s` ends in the directive `%w`, with `lead` in front of
it, white space `v` behind it, and at most one line terminator `tail` that is not white space to
the patterns (`$` also holds in front of such a terminator).  A string has at most one such
decomposition (`Directive.unique`), and the three patterns find it exactly when `w` is the name
they are made for (`find_directivePattern`, `find_directivePattern_eq_none`); what they remove is
the directive with the white space around it (`removeFirst_directivePattern`).

`normalizeLine_of_group` … `normalizeLineInner_of_normal` read `normalizeLine` off the directives
of its argument, and `normalizeLine_ok` says that it never throws.

White space that is put behind a line becomes part of `v` (`directive_concat_iff`), on which
`normalizeLine` does not depend (`normalizeLine_congr`).
-/

namespace ExamGeneratorNg

open Regex

/-! ### Characters -/

theorem not_isSpace_of_isLowercase {c : JChar} (h : isLowercase c = true) : isSpace c = false := by
  unfold isLowercase at h
  unfold isSpace
  simp only [Bool.and_eq_true, decide_eq_true_eq] at h
  have hge : (chr 'a').toNat ≤ c.toNat := UInt16.le_iff_toNat_le.mp h.1
  simp only [Bool.or_eq_false_iff, decide_eq_false_iff_not]
  refine ⟨⟨⟨⟨⟨?_, ?_⟩, ?_⟩, ?_⟩, ?_⟩, ?_⟩ <;>
  · rintro rfl
    exact absurd hge (by decide)

theorem ne_percent_of_isLowercase {c : JChar} (h : isLowercase c = true) : c ≠ chr '%' := by
  rintro rfl
  exact absurd h (by decide)

theorem isLowercase_of_isLineTerminator {c : JChar} (h : isLineTerminator c = true) :
    isLowercase c = false := by
  unfold isLineTerminator at h
  simp only [Bool.or_eq_true, decide_eq_true_eq] at h
  rcases h with (((rfl | rfl) | rfl) | rfl) | rfl <;> decide

theorem ne_percent_of_isSpace {c : JChar} (h : isSpace c = true) : c ≠ chr '%' := by
  rintro rfl
  exact absurd h (by decide)

/-- `s` without the white space at its end. -/
def trimRight (s : JString) : JString := s.rdropWhile isSpace

theorem trimRight_append {u : JString} (hu : ∀ c ∈ u, isSpace c = true) (s : JString) :
    trimRight (s ++ u) = trimRight s := by
  induction u using List.reverseRecOn with
  | nil => rw [List.append_nil]
  | append_singleton u c ih =>
    rw [← List.append_assoc, trimRight, List.rdropWhile_concat_pos _ _ _ (hu c (by simp))]
    exact ih fun d hd => hu d (List.mem_append_left _ hd)

/-- Nothing is trimmed behind a character that is not white space. -/
theorem trimRight_append_cons {c : JChar} (hc : isSpace c = false) (s t : JString) :
    trimRight (s ++ c :: t) = s ++ c :: trimRight t := by
  induction t using List.reverseRecOn with
  | nil =>
    rw [trimRight, List.rdropWhile_concat_neg _ _ _ (by simp [hc])]
    rfl
  | append_singleton t d ih =>
    by_cases hd : isSpace d = true
    · have hd' : ∀ e ∈ [d], isSpace e = true := by simpa using hd
      rw [← List.cons_append, ← List.append_assoc, trimRight_append hd', ih, trimRight_append hd']
    · rw [← List.cons_append, ← List.append_assoc, trimRight, List.rdropWhile_concat_neg _ _ _ hd,
        trimRight, List.rdropWhile_concat_neg _ _ _ hd]
      simp

theorem exists_trimRight (s : JString) :
    ∃ u, s = trimRight s ++ u ∧ ∀ c ∈ u, isSpace c = true :=
  ⟨s.rtakeWhile isSpace, List.rdropWhile_append_rtakeWhile.symm, fun _ => List.mem_rtakeWhile_imp⟩

theorem trimRight_eq_self {s : JString} (h : ∀ c ∈ s.getLast?, isSpace c = false) :
    trimRight s = s := by
  rw [trimRight, List.rdropWhile_eq_self_iff]
  intro hs
  rw [h _ (List.getLast?_eq_some_getLast hs)]
  simp

theorem getLast?_trimRight {s : JString} {c : JChar} (h : c ∈ (trimRight s).getLast?) :
    isSpace c = false := by
  have hne : trimRight s ≠ [] := by
    intro h0
    rw [h0] at h
    exact absurd h (by simp)
  rw [List.getLast?_eq_some_getLast hne, Option.mem_some_iff] at h
  rw [← h, ← Bool.not_eq_true]
  exact List.rdropWhile_last_not isSpace s hne

/-! ### Directives at the end of a string -/

/-- What `$` may leave behind a directive and its white space: nothing, or one line terminator
that is not white space. -/
def IsTail (tail : JString) : Prop :=
  tail = [] ∨ ∃ c, tail = [c] ∧ isLineTerminator c = true ∧ isSpace c = false

/-- `s` ends in the directive `%w`. -/
structure Directive (s lead w v tail : JString) : Prop where
  eq : s = lead ++ chr '%' :: (w ++ (v ++ tail))
  lowercase : ∀ c ∈ w, isLowercase c = true
  space : ∀ c ∈ v, isSpace c = true
  tail : IsTail tail

theorem percent_not_mem_tail {w v tail : JString} (hw : ∀ c ∈ w, isLowercase c = true)
    (hv : ∀ c ∈ v, isSpace c = true) (htail : IsTail tail) :
    chr '%' ∉ w ++ (v ++ tail) := by
  simp only [List.mem_append]
  rintro (h | h | h)
  · exact ne_percent_of_isLowercase (hw _ h) rfl
  · exact ne_percent_of_isSpace (hv _ h) rfl
  · obtain rfl | ⟨c, rfl, hc, -⟩ := htail
    · simp at h
    · rw [List.mem_singleton] at h
      subst h
      exact absurd hc (by decide)

/-- The last occurrence of a character cuts a string in one way only. -/
theorem append_cons_inj_of_last {a : JChar} {x y x' y' : JString} (hy : a ∉ y) (hy' : a ∉ y')
    (h : x ++ a :: y = x' ++ a :: y') : x = x' ∧ y = y' := by
  have key : ∀ {x y x' y' as : JString}, a ∉ y → x' = x ++ as → a :: y = as ++ a :: y' →
      x = x' ∧ y = y' := by
    intro x y x' y' as hy hx has
    cases as with
    | nil => exact ⟨by simp [hx], (List.cons.inj has).2⟩
    | cons b as =>
      rw [List.cons_append] at has
      exact absurd (by rw [(List.cons.inj has).2]; simp) hy
  rcases List.append_eq_append_iff.mp h with ⟨as, hx, has⟩ | ⟨as, hx, has⟩
  · exact key hy hx has
  · obtain ⟨h1, h2⟩ := key hy' hx has
    exact ⟨h1.symm, h2.symm⟩

theorem takeWhile_dropWhile_append {p : JChar → Bool} {x y : JString} (hx : ∀ c ∈ x, p c = true)
    (hy : ∀ c ∈ y.head?, p c = false) :
    (x ++ y).takeWhile p = x ∧ (x ++ y).dropWhile p = y := by
  rw [List.takeWhile_append_of_pos hx, List.dropWhile_append_of_pos hx]
  cases y with
  | nil => simp
  | cons c cs => simp [hy c rfl]

theorem head?_space_tail {v tail : JString} (hv : ∀ c ∈ v, isSpace c = true) (htail : IsTail tail) :
    ∀ c ∈ (v ++ tail).head?, isLowercase c = false := by
  intro c hc
  cases v with
  | nil =>
    obtain rfl | ⟨d, rfl, hd, -⟩ := htail
    · simp at hc
    · simp only [List.nil_append, List.head?_cons, Option.mem_some_iff] at hc
      exact hc ▸ isLowercase_of_isLineTerminator hd
  | cons d v =>
    simp only [List.cons_append, List.head?_cons, Option.mem_some_iff] at hc
    subst hc
    by_contra h
    rw [Bool.not_eq_false] at h
    have hd := hv d (by simp)
    rw [not_isSpace_of_isLowercase h] at hd
    exact Bool.false_ne_true hd

theorem head?_tail {tail : JString} (htail : IsTail tail) :
    ∀ c ∈ tail.head?, isSpace c = false := by
  intro c hc
  obtain rfl | ⟨d, rfl, -, hd⟩ := htail
  · simp at hc
  · simp only [List.head?_cons, Option.mem_some_iff] at hc
    exact hc ▸ hd

/-- **A string ends in at most one directive.** -/
theorem Directive.unique {s lead w v tail lead' w' v' tail' : JString}
    (h : Directive s lead w v tail) (h' : Directive s lead' w' v' tail') :
    lead = lead' ∧ w = w' ∧ v = v' ∧ tail = tail' := by
  -- both start at the last percent sign, and each part is read up to the first other character
  obtain ⟨hlead, hrest⟩ := append_cons_inj_of_last
    (percent_not_mem_tail h.lowercase h.space h.tail)
    (percent_not_mem_tail h'.lowercase h'.space h'.tail) (h.eq.symm.trans h'.eq)
  obtain ⟨hw1, hvt1⟩ := takeWhile_dropWhile_append h.lowercase (head?_space_tail h.space h.tail)
  obtain ⟨hw2, hvt2⟩ := takeWhile_dropWhile_append h'.lowercase (head?_space_tail h'.space h'.tail)
  have hw : w = w' := by rw [← hw1, hrest, hw2]
  have hvt : v ++ tail = v' ++ tail' := by rw [← hvt1, hrest, hvt2]
  obtain ⟨hv1, ht1⟩ := takeWhile_dropWhile_append h.space (head?_tail h.tail)
  obtain ⟨hv2, ht2⟩ := takeWhile_dropWhile_append h'.space (head?_tail h'.tail)
  exact ⟨hlead, hw, by rw [← hv1, hvt, hv2], by rw [← ht1, hvt, ht2]⟩

/-! ### The directive patterns -/

/-- The pattern `name` reads the lowercase words of `IsName`, each in one way, and captures
`captured w` when it reads `w`. -/
structure ReadsName (name : Pattern JChar) (IsName : JString → Prop)
    (captured : JString → List (ℕ × JString)) : Prop where
  lowercase : ∀ w, IsName w → ∀ c ∈ w, isLowercase c = true
  ends_append : ∀ w before rest, IsName w →
    name.ends ⟨before, w ++ rest, []⟩ = [⟨w.reverse ++ before, rest, captured w⟩]
  ends_eq_nil : ∀ before after, (∀ w, IsName w → ¬ w <+: after) →
    name.ends ⟨before, after, []⟩ = []

theorem readsName_word {w : JString} (hw : ∀ c ∈ w, isLowercase c = true) :
    ReadsName (.word w) (· = w) (fun _ => []) where
  lowercase := by
    rintro _ rfl
    exact hw
  ends_append := by
    rintro _ before rest rfl
    exact Pattern.ends_word_append _ before rest []
  ends_eq_nil before after h := Pattern.ends_word_eq_nil (h w rfl) before []

theorem readsName_letter :
    ReadsName (.group 1 (.one isLowercase)) (fun w => ∃ c, w = [c] ∧ isLowercase c = true)
      (fun w => [(1, w)]) where
  lowercase := by
    rintro _ ⟨c, rfl, hc⟩ d hd
    rw [List.mem_singleton] at hd
    exact hd ▸ hc
  ends_append := by
    rintro _ before rest ⟨c, rfl, hc⟩
    rw [List.singleton_append, Pattern.ends_group_one, if_pos hc]
    rfl
  ends_eq_nil before after h := by
    cases after with
    | nil => rfl
    | cons c cs =>
      rw [Pattern.ends_group_one, if_neg]
      intro hc
      exact h [c] ⟨c, rfl, hc⟩ ⟨cs, rfl⟩

/-- In front of a character that is no white space, `$` holds exactly before a tail. -/
theorem atEnd_iff {before t : JString} (ht : ∀ c ∈ t.head?, isSpace c = false) :
    atEnd before t = true ↔ IsTail t := by
  match t with
  | [] => exact ⟨fun _ => Or.inl rfl, fun _ => rfl⟩
  | [c] =>
    have hc : isSpace c = false := ht c rfl
    have hne : c ≠ chr '\n' := by
      rintro rfl
      exact absurd hc (by decide)
    simp only [atEnd, IsTail, hne, decide_false, Bool.false_and, Bool.not_false, Bool.and_true]
    constructor
    · exact fun h => Or.inr ⟨c, rfl, h, hc⟩
    · rintro (h | ⟨d, hd, h, -⟩)
      · exact absurd h (by simp)
      · rw [(List.cons.inj hd).1]
        exact h
  | [c, d] =>
    -- two characters are a line terminator only if the first is white space
    have hc : c ≠ chr '\r' := by
      rintro rfl
      exact absurd (ht (chr '\r') rfl) (by decide)
    simp [atEnd, IsTail, hc]
  | c :: d :: e :: t => simp [atEnd, IsTail]

/-- `$` holds behind white space as soon as it holds inside it. -/
theorem atEnd_skip (before : JString) (a : JChar) (as : JString) (ha : isSpace a = true)
    (h : atEnd before (a :: as) = true) :
    atEnd (((a :: as).takeWhile isSpace).reverse ++ before) ((a :: as).dropWhile isSpace)
      = true := by
  match as with
  | [] => simp [List.dropWhile_cons_of_pos ha, atEnd]
  | [d] =>
    have hd : d = chr '\n' := by
      simp only [atEnd, Bool.and_eq_true, decide_eq_true_eq] at h
      exact h.2
    subst hd
    have hd : isSpace (chr '\n') = true := by decide
    simp [List.dropWhile_cons_of_pos ha, List.dropWhile_cons_of_pos hd, atEnd]
  | d :: e :: t => simp [atEnd] at h

variable {name : Pattern JChar} {IsName : JString → Prop} {captured : JString → List (ℕ × JString)}

/-- A directive pattern first skips white space. -/
theorem lookingAt_directivePattern (before after : JString) :
    (directivePattern name).lookingAt before after
      = ((Pattern.seq (.word [chr '%']) (.seq name (.seq (.many isSpace) endAnchor))).ends
          ⟨(after.takeWhile isSpace).reverse ++ before, after.dropWhile isSpace, []⟩).head?.map
            fun d => ⟨before.length, d.before.length, d.groups⟩ := by
  rw [Pattern.lookingAt, directivePattern, Pattern.ends_seq_many]
  · rfl
  · intro before a as groups ha
    rw [Pattern.ends_seq, Pattern.ends_word_eq_nil, List.flatMap_nil]
    rintro ⟨u, hu⟩
    exact ne_percent_of_isSpace ha (List.cons.inj hu).1.symm

/-- A directive pattern matches from the white space in front of its directive on. -/
theorem lookingAt_of_directive (hname : ReadsName name IsName captured) (before : JString)
    {u w v tail : JString} (hu : ∀ c ∈ u, isSpace c = true) (hw : IsName w)
    (hv : ∀ c ∈ v, isSpace c = true) (htail : IsTail tail) :
    (directivePattern name).lookingAt before (u ++ chr '%' :: (w ++ (v ++ tail)))
      = some ⟨before.length, before.length + (u.length + 1 + w.length + v.length), captured w⟩ := by
  obtain ⟨hu1, hu2⟩ := takeWhile_dropWhile_append hu (y := chr '%' :: (w ++ (v ++ tail)))
    (by rintro c ⟨⟩; decide)
  obtain ⟨hv1, hv2⟩ := takeWhile_dropWhile_append hv (head?_tail htail)
  rw [lookingAt_directivePattern, hu1, hu2, Pattern.ends_seq,
    show chr '%' :: (w ++ (v ++ tail)) = [chr '%'] ++ (w ++ (v ++ tail)) from rfl,
    Pattern.ends_word_append, List.flatMap_cons, List.flatMap_nil, List.append_nil,
    Pattern.ends_seq, hname.ends_append w _ _ hw, List.flatMap_cons, List.flatMap_nil,
    List.append_nil, endAnchor, Pattern.head?_ends_many_look atEnd_skip, if_pos]
  · simp only [Cursor.skip, hv1, Option.map_some, Option.some.injEq, MatchResult.mk.injEq,
      true_and, and_true]
    simp
    omega
  · -- `$` holds behind the white space
    rw [Cursor.skip_after, hv2, atEnd_iff (head?_tail htail)]
    exact htail

/-- Where a directive pattern matches there is a directive. -/
theorem directive_of_lookingAt (hname : ReadsName name IsName captured) {before after : JString}
    {m : MatchResult JChar} (h : (directivePattern name).lookingAt before after = some m) :
    ∃ u w v tail, after = u ++ chr '%' :: (w ++ (v ++ tail)) ∧ (∀ c ∈ u, isSpace c = true) ∧
      IsName w ∧ (∀ c ∈ v, isSpace c = true) ∧ IsTail tail := by
  rw [lookingAt_directivePattern, Pattern.ends_seq] at h
  by_cases hpercent : [chr '%'] <+: after.dropWhile isSpace
  · obtain ⟨y, hy⟩ := hpercent
    rw [← hy, Pattern.ends_word_append, List.flatMap_cons, List.flatMap_nil, List.append_nil,
      Pattern.ends_seq] at h
    by_cases hw : ∃ w, IsName w ∧ w <+: y
    · obtain ⟨w, hw, z, rfl⟩ := hw
      rw [hname.ends_append w _ _ hw, List.flatMap_cons, List.flatMap_nil, List.append_nil,
        endAnchor, Pattern.head?_ends_many_look atEnd_skip] at h
      split_ifs at h with hend
      · -- the white space is read as far as it goes
        have hhead : ∀ c ∈ (z.dropWhile isSpace).head?, isSpace c = false := by
          intro c hc
          have := List.head?_dropWhile_not isSpace z
          rw [Option.mem_def.mp hc] at this
          simpa using this
        refine ⟨after.takeWhile isSpace, w, z.takeWhile isSpace, z.dropWhile isSpace, ?_,
          fun c => List.mem_takeWhile_imp, hw, fun c => List.mem_takeWhile_imp,
          (atEnd_iff hhead).mp hend⟩
        rw [List.takeWhile_append_dropWhile]
        conv_lhs => rw [← List.takeWhile_append_dropWhile (p := isSpace) (l := after), ← hy]
        rfl
      · exact absurd h (by simp)
    · rw [hname.ends_eq_nil _ _ (fun w hw' hwy => hw ⟨w, hw', hwy⟩)] at h
      exact absurd h (by simp)
  · rw [Pattern.ends_word_eq_nil hpercent] at h
    exact absurd h (by simp)

/-- **A directive pattern finds the directive the string ends in**, with the white space in front
of it. -/
theorem find_directivePattern (hname : ReadsName name IsName captured)
    {s lead w v tail : JString} (h : Directive s lead w v tail) (hw : IsName w) :
    (directivePattern name).find s
      = some ⟨(trimRight lead).length, lead.length + 1 + w.length + v.length, captured w⟩ := by
  obtain ⟨u, hlead, hu⟩ := exists_trimRight lead
  have hs : s = trimRight lead ++ (u ++ chr '%' :: (w ++ (v ++ tail))) := by
    rw [h.eq]
    conv_lhs => rw [hlead, List.append_assoc]
  have hlook := lookingAt_of_directive hname (trimRight lead).reverse hu hw h.space h.tail
  rw [hs, Pattern.find_append_of_lookingAt _ hlook]
  · have := congrArg List.length hlead
    simp at this ⊢
    omega
  · -- a match that starts earlier ends in the same directive, so it starts with white space
    intro t₁ t₂ ht ht₂
    by_contra hsome
    obtain ⟨m, hm⟩ := Option.ne_none_iff_exists'.mp hsome
    obtain ⟨u', w', v', tail', heq, hu', hw', hv', htail'⟩ := directive_of_lookingAt hname hm
    have hu'' : t₂ ++ u = u' := by
      rw [← List.append_assoc] at heq
      exact (append_cons_inj_of_last (percent_not_mem_tail h.lowercase h.space h.tail)
        (percent_not_mem_tail (hname.lowercase w' hw') hv' htail') heq).1
    have hlast : (t₂.getLast ht₂) ∈ (trimRight lead).getLast? := by
      rw [ht, List.getLast?_append_of_ne_nil _ ht₂, List.getLast?_eq_some_getLast ht₂]
      rfl
    have hspace : isSpace (t₂.getLast ht₂) = true := by
      apply hu'
      rw [← hu'']
      exact List.mem_append_left _ (List.getLast_mem ht₂)
    rw [getLast?_trimRight hlast] at hspace
    exact Bool.false_ne_true hspace

theorem find_directivePattern_eq_none (hname : ReadsName name IsName captured) {s : JString}
    (h : ∀ lead w v tail, Directive s lead w v tail → ¬ IsName w) :
    (directivePattern name).find s = none := by
  apply Pattern.find_eq_none
  intro t rest hs
  by_contra hsome
  obtain ⟨m, hm⟩ := Option.ne_none_iff_exists'.mp hsome
  obtain ⟨u, w, v, tail, heq, -, hw, hv, htail⟩ := directive_of_lookingAt hname hm
  refine h (t ++ u) w v tail ⟨?_, hname.lowercase w hw, hv, htail⟩ hw
  rw [hs, heq, List.append_assoc]

/-- What is left when the directive is removed. -/
theorem removeFirst_directivePattern (hname : ReadsName name IsName captured)
    {s lead w v tail : JString} (h : Directive s lead w v tail) (hw : IsName w) :
    removeFirst s (directivePattern name) = trimRight lead ++ tail := by
  obtain ⟨u, hlead, -⟩ := exists_trimRight lead
  rw [removeFirst, Pattern.replaceFirst_of_find_some (find_directivePattern hname h hw),
    List.append_nil]
  have htake : s.take (trimRight lead).length = trimRight lead := by
    rw [h.eq]
    conv_lhs => rw [hlead, List.append_assoc]
    rw [← hlead, List.take_left]
  have hdrop : s.drop (lead.length + 1 + w.length + v.length) = tail := by
    have hs : s = (lead ++ chr '%' :: (w ++ v)) ++ tail := by rw [h.eq]; simp
    have hlen : lead.length + 1 + w.length + v.length = (lead ++ chr '%' :: (w ++ v)).length := by
      simp
      omega
    rw [hlen, hs, List.drop_left]
  rw [htake, hdrop]

/-! ### `normalizeLine` -/

theorem readsName_excluded :
    ReadsName (.word (jstr "excluded")) (· = jstr "excluded") (fun _ => []) :=
  readsName_word (by decide)

theorem readsName_hidden :
    ReadsName (.word (jstr "hidden")) (· = jstr "hidden") (fun _ => []) :=
  readsName_word (by decide)

/-- The group with the lowercase letter `c`. -/
def letterGroup (c : JChar) : Group := ⟨(c.toNat : ℤ) - (chr 'a').toNat⟩

/-- Removing a directive changes the string. -/
theorem Directive.ne_of_removed {s lead w v tail : JString} (h : Directive s lead w v tail) :
    trimRight lead ++ tail ≠ s := by
  intro heq
  have hlen := congrArg List.length (heq.trans h.eq)
  obtain ⟨u, hlead, -⟩ := exists_trimRight lead
  have hle : (trimRight lead).length ≤ lead.length := by
    conv_rhs => rw [hlead]
    simp
  simp at hlen
  omega

theorem normalizeLineInner_of_excluded {s lead v tail : JString}
    (h : Directive s lead (jstr "excluded") v tail) (group : Option Group) :
    normalizeLineInner s group = ⟨trimRight lead ++ tail, .excluded, group⟩ := by
  unfold normalizeLineInner excludedPattern
  simp only [removeFirst_directivePattern readsName_excluded h rfl]
  rw [if_pos h.ne_of_removed]

/-- A pattern whose name is not the one of the line's directive removes nothing. -/
theorem removeFirst_eq_self {name : Pattern JChar} {IsName : JString → Prop}
    {captured : JString → List (ℕ × JString)} (hname : ReadsName name IsName captured)
    {s : JString} (h : ∀ lead w v tail, Directive s lead w v tail → ¬ IsName w) :
    removeFirst s (directivePattern name) = s :=
  Pattern.replaceFirst_of_find_none (find_directivePattern_eq_none hname h) []

theorem normalizeLineInner_of_hidden {s lead v tail : JString}
    (h : Directive s lead (jstr "hidden") v tail) (group : Option Group) :
    normalizeLineInner s group = ⟨trimRight lead ++ tail, .hidden, group⟩ := by
  have hexcluded : removeFirst s (directivePattern (.word (jstr "excluded"))) = s := by
    apply removeFirst_eq_self readsName_excluded
    intro lead' w' v' tail' h' hw'
    rw [← (h.unique h').2.1] at hw'
    exact absurd hw' (by decide)
  unfold normalizeLineInner excludedPattern hiddenPattern
  simp only [hexcluded, removeFirst_directivePattern readsName_hidden h rfl]
  rw [if_neg (by simp), if_pos h.ne_of_removed]

theorem normalizeLineInner_of_normal {s : JString}
    (h : ∀ lead w v tail, Directive s lead w v tail → w ≠ jstr "excluded" ∧ w ≠ jstr "hidden")
    (group : Option Group) : normalizeLineInner s group = ⟨s, .normal, group⟩ := by
  have hexcluded : removeFirst s (directivePattern (.word (jstr "excluded"))) = s :=
    removeFirst_eq_self readsName_excluded fun lead w v tail hd => (h lead w v tail hd).1
  have hhidden : removeFirst s (directivePattern (.word (jstr "hidden"))) = s :=
    removeFirst_eq_self readsName_hidden fun lead w v tail hd => (h lead w v tail hd).2
  unfold normalizeLineInner excludedPattern hiddenPattern
  simp only [hexcluded, hhidden]
  rw [if_neg (by simp), if_neg (by simp)]

theorem normalizeLine_of_group {s lead v tail : JString} {c : JChar}
    (h : Directive s lead [c] v tail) :
    normalizeLine s = .ok (normalizeLineInner (trimRight lead ++ tail) (some (letterGroup c))) := by
  have hc : isLowercase c = true := h.lowercase c (by simp)
  unfold normalizeLine groupPattern
  rw [find_directivePattern readsName_letter h ⟨c, rfl, hc⟩,
    removeFirst_directivePattern readsName_letter h ⟨c, rfl, hc⟩]
  have hid : Group.fromLowercaseIdentifier [c] = .ok (letterGroup c) := by
    rw [Group.fromLowercaseIdentifier, if_pos hc]
    rfl
  show (Group.fromLowercaseIdentifier [c] >>= _) = _
  rw [hid]
  rfl

theorem normalizeLine_of_no_group {s : JString}
    (h : ∀ lead c v tail, ¬ Directive s lead [c] v tail) :
    normalizeLine s = .ok (normalizeLineInner s none) := by
  have hnone : (directivePattern (.group 1 (.one isLowercase))).find s = none := by
    apply find_directivePattern_eq_none readsName_letter
    rintro lead w v tail hd ⟨c, rfl, -⟩
    exact h lead c v tail hd
  unfold normalizeLine groupPattern
  rw [hnone]
  rfl

/-- **`normalizeLine` never throws.** -/
theorem normalizeLine_ok (s : JString) : ∃ line, normalizeLine s = .ok line := by
  by_cases h : ∃ lead c v tail, Directive s lead [c] v tail
  · obtain ⟨lead, c, v, tail, h⟩ := h
    exact ⟨_, normalizeLine_of_group h⟩
  · exact ⟨_, normalizeLine_of_no_group fun lead c v tail hd => h ⟨lead, c, v, tail, hd⟩⟩

/-! ### White space behind a line -/

/-- The names of the directives. -/
def IsDirectiveName (w : JString) : Prop :=
  (∃ c, w = [c]) ∨ w = jstr "excluded" ∨ w = jstr "hidden"

theorem IsDirectiveName.ne_nil {w : JString} (h : IsDirectiveName w) : w ≠ [] := by
  rintro rfl
  rcases h with ⟨c, h⟩ | h | h
  · cases h
  · cases h
  · cases h

/-- The last character of a string with a directive. -/
theorem Directive.concat_cases {s lead w v tail : JString} {c : JChar}
    (h : Directive (s ++ [c]) lead w v tail) (hw : w ≠ []) :
    tail = [c] ∨ (tail = [] ∧ ∃ v', v = v' ++ [c] ∧ Directive s lead w v' []) ∨
      isLowercase c = true := by
  have heq := h.eq
  rcases h.tail with rfl | ⟨d, rfl, -⟩
  · right
    rcases List.eq_nil_or_concat' v with rfl | ⟨v', d, rfl⟩
    · right
      obtain ⟨w', d, rfl⟩ := (List.eq_nil_or_concat' w).resolve_left hw
      have hs : s ++ [c] = (lead ++ chr '%' :: w') ++ [d] := by simpa using heq
      rw [List.singleton_inj.mp (List.append_inj' hs rfl).2]
      exact h.lowercase d (by simp)
    · left
      have hs : s ++ [c] = (lead ++ chr '%' :: (w ++ v')) ++ [d] := by simpa using heq
      obtain ⟨hs, hd⟩ := List.append_inj' hs rfl
      rw [List.singleton_inj.mp hd]
      refine ⟨rfl, v', rfl, by simpa using hs, h.lowercase, fun e he => ?_, .inl rfl⟩
      exact h.space e (List.mem_append_left _ he)
  · left
    have hs : s ++ [c] = (lead ++ chr '%' :: (w ++ v)) ++ [d] := by simpa using heq
    exact (List.append_inj' hs rfl).2.symm

/-- White space behind a line goes to the white space behind its directive. -/
theorem directive_concat_iff {s lead w v tail : JString} {c : JChar} (hc : isSpace c = true)
    (hw : w ≠ []) :
    Directive (s ++ [c]) lead w v tail ↔
      tail = [] ∧ ∃ v', v = v' ++ [c] ∧ Directive s lead w v' [] := by
  constructor
  · intro h
    rcases h.concat_cases hw with htail | hv | hlower
    · rcases h.tail with hnil | ⟨d, hd, -, hspace⟩
      · rw [htail] at hnil
        cases hnil
      · rw [htail, List.singleton_inj] at hd
        rw [← hd, hc] at hspace
        cases hspace
    · exact hv
    · rw [not_isSpace_of_isLowercase hlower] at hc
      cases hc
  · rintro ⟨rfl, v', rfl, h⟩
    refine ⟨?_, h.lowercase, ?_, .inl rfl⟩
    · simp [h.eq]
    · intro d hd
      rcases List.mem_append.mp hd with hd | hd
      · exact h.space d hd
      · exact List.mem_singleton.mp hd ▸ hc

/-- Where there is no directive, nothing is removed. -/
theorem normalizeLine_of_no_directive {s : JString}
    (h : ∀ lead w v tail, Directive s lead w v tail → ¬ IsDirectiveName w) :
    normalizeLine s = .ok ⟨s, .normal, none⟩ := by
  rw [normalizeLine_of_no_group fun lead c v tail hd => h lead [c] v tail hd (.inl ⟨c, rfl⟩),
    normalizeLineInner_of_normal fun lead w v tail hd => ?_]
  have hname := h lead w v tail hd
  exact ⟨fun hw => hname (.inr (.inl hw)), fun hw => hname (.inr (.inr hw))⟩

/-- A directive with a name of more than one letter is no group directive. -/
theorem normalizeLine_of_length_ne_one {s lead w v tail : JString} (h : Directive s lead w v tail)
    (hw : w.length ≠ 1) : normalizeLine s = .ok (normalizeLineInner s none) := by
  apply normalizeLine_of_no_group
  intro lead' c v' tail' h'
  apply hw
  rw [(h.unique h').2.1]
  rfl

/-- What a directive does depends on the text in front of it and on what `$` leaves behind it. -/
theorem normalizeLine_congr {s s' lead w v v' tail : JString} (h : Directive s lead w v tail)
    (h' : Directive s' lead w v' tail) (hw : IsDirectiveName w) :
    normalizeLine s = normalizeLine s' := by
  rcases hw with ⟨c, rfl⟩ | rfl | rfl
  · rw [normalizeLine_of_group h, normalizeLine_of_group h']
  · rw [normalizeLine_of_length_ne_one h (by decide), normalizeLineInner_of_excluded h,
      normalizeLine_of_length_ne_one h' (by decide), normalizeLineInner_of_excluded h']
  · rw [normalizeLine_of_length_ne_one h (by decide), normalizeLineInner_of_hidden h,
      normalizeLine_of_length_ne_one h' (by decide), normalizeLineInner_of_hidden h']

section

variable {s : JString} {c : JChar} (hc : isLineTerminator c = true) (hspace : isSpace c = false)

include hc hspace

/-- A line terminator that is not white space stays where it is behind a directive. -/
theorem Directive.tail_eq_of_isLineTerminator {lead w v tail : JString}
    (h : Directive (s ++ [c]) lead w v tail) (hw : w ≠ []) : tail = [c] := by
  rcases h.concat_cases hw with htail | ⟨-, v', rfl, -⟩ | hlower
  · exact htail
  · rw [h.space c (by simp)] at hspace
    cases hspace
  · rw [isLowercase_of_isLineTerminator hc] at hlower
    cases hlower

theorem getLast?_normalizeLineInner (group : Option Group) :
    (normalizeLineInner (s ++ [c]) group).content.getLast? = some c := by
  by_cases hexcluded : ∃ lead v tail, Directive (s ++ [c]) lead (jstr "excluded") v tail
  · obtain ⟨lead, v, tail, h⟩ := hexcluded
    rw [normalizeLineInner_of_excluded h, h.tail_eq_of_isLineTerminator hc hspace (by decide)]
    exact List.getLast?_concat
  by_cases hhidden : ∃ lead v tail, Directive (s ++ [c]) lead (jstr "hidden") v tail
  · obtain ⟨lead, v, tail, h⟩ := hhidden
    rw [normalizeLineInner_of_hidden h, h.tail_eq_of_isLineTerminator hc hspace (by decide)]
    exact List.getLast?_concat
  · rw [normalizeLineInner_of_normal fun lead w v tail h =>
      ⟨fun hw => hexcluded ⟨lead, v, tail, hw ▸ h⟩, fun hw => hhidden ⟨lead, v, tail, hw ▸ h⟩⟩]
    exact List.getLast?_concat

end

/-! ### Text in front of a line -/

/-- A text that ends in an underscore has no part in the directive behind it. -/
theorem directive_append_iff {t s lead w v tail : JString} :
    Directive (t ++ chr '_' :: s) lead w v tail ↔
      ∃ lead', lead = t ++ chr '_' :: lead' ∧ Directive s lead' w v tail := by
  constructor
  · intro h
    have hunderscore : chr '_' ∉ chr '%' :: (w ++ (v ++ tail)) := by
      simp only [List.mem_cons, List.mem_append]
      rintro (h0 | h1 | h2 | h3)
      · exact absurd h0 (by decide)
      · exact absurd (h.lowercase _ h1) (by decide)
      · exact absurd (h.space _ h2) (by decide)
      · obtain h4 | ⟨c, h4, hc, -⟩ := h.tail
        · rw [h4] at h3
          simp at h3
        · rw [h4, List.mem_singleton] at h3
          subst h3
          exact absurd hc (by decide)
    -- so the percent sign stands behind it
    have heq : (t ++ [chr '_']) ++ s = lead ++ chr '%' :: (w ++ (v ++ tail)) := by
      rw [← h.eq]
      simp
    rcases List.append_eq_append_iff.mp heq with ⟨as, hlead, hs⟩ | ⟨as, hlead, hs⟩
    · exact ⟨as, by simp [hlead], hs, h.lowercase, h.space, h.tail⟩
    · rcases List.eq_nil_or_concat as with rfl | ⟨as, c, rfl⟩
      · refine ⟨[], ?_, ?_, h.lowercase, h.space, h.tail⟩
        · rw [List.append_nil] at hlead
          rw [← hlead]
        · rw [List.nil_append] at hs
          exact hs.symm
      · rw [List.concat_eq_append, ← List.append_assoc] at hlead
        have hc : chr '_' = c := (List.append_inj' hlead rfl).2 |> List.singleton_inj.mp
        rw [hs, ← hc] at hunderscore
        exact absurd (by simp) hunderscore
  · rintro ⟨lead', rfl, h⟩
    refine ⟨?_, h.lowercase, h.space, h.tail⟩
    rw [h.eq]
    simp

/-- The line with `t` in front of its content. -/
def NormalizedLine.prepend (t : JString) (line : NormalizedLine) : NormalizedLine :=
  { line with content := t ++ line.content }

theorem normalizeLineInner_append (t s : JString) (group : Option Group) :
    normalizeLineInner (t ++ chr '_' :: s) group
      = (normalizeLineInner s group).prepend (t ++ [chr '_']) := by
  have htrim : ∀ lead' tail : JString, trimRight (t ++ chr '_' :: lead') ++ tail
      = (t ++ [chr '_']) ++ (trimRight lead' ++ tail) := by
    intro lead' tail
    rw [trimRight_append_cons (by decide)]
    simp
  by_cases hexcluded : ∃ lead v tail, Directive s lead (jstr "excluded") v tail
  · obtain ⟨lead, v, tail, h⟩ := hexcluded
    rw [normalizeLineInner_of_excluded h,
      normalizeLineInner_of_excluded (directive_append_iff.mpr ⟨lead, rfl, h⟩), htrim]
    rfl
  by_cases hhidden : ∃ lead v tail, Directive s lead (jstr "hidden") v tail
  · obtain ⟨lead, v, tail, h⟩ := hhidden
    rw [normalizeLineInner_of_hidden h,
      normalizeLineInner_of_hidden (directive_append_iff.mpr ⟨lead, rfl, h⟩), htrim]
    rfl
  have hnormal : ∀ lead w v tail, Directive s lead w v tail →
      w ≠ jstr "excluded" ∧ w ≠ jstr "hidden" := by
    intro lead w v tail h
    exact ⟨fun hw => hexcluded ⟨lead, v, tail, hw ▸ h⟩, fun hw => hhidden ⟨lead, v, tail, hw ▸ h⟩⟩
  rw [normalizeLineInner_of_normal hnormal, normalizeLineInner_of_normal]
  · simp [NormalizedLine.prepend]
  · intro lead w v tail h
    obtain ⟨lead', -, h'⟩ := directive_append_iff.mp h
    exact hnormal lead' w v tail h'

/-- **The directives of a line do not look past an underscore.** -/
theorem normalizeLine_append (t s : JString) :
    normalizeLine (t ++ chr '_' :: s)
      = (normalizeLine s).map (NormalizedLine.prepend (t ++ [chr '_'])) := by
  by_cases hgroup : ∃ lead c v tail, Directive s lead [c] v tail
  · obtain ⟨lead, c, v, tail, h⟩ := hgroup
    rw [normalizeLine_of_group h,
      normalizeLine_of_group (directive_append_iff.mpr ⟨lead, rfl, h⟩),
      trimRight_append_cons (by decide), List.append_assoc, List.cons_append,
      normalizeLineInner_append]
    rfl
  · rw [normalizeLine_of_no_group fun lead c v tail h => hgroup ⟨lead, c, v, tail, h⟩,
      normalizeLine_of_no_group, normalizeLineInner_append]
    · rfl
    · intro lead c v tail h
      obtain ⟨lead', -, h'⟩ := directive_append_iff.mp h
      exact hgroup ⟨lead', c, v, tail, h'⟩

/-! ### What is left of a line -/

theorem removeFirst_subset (s : JString) (pattern : Pattern JChar) : removeFirst s pattern ⊆ s := by
  unfold removeFirst Pattern.replaceFirst
  split
  · exact List.Subset.refl _
  · intro c hc
    rw [List.append_nil, List.mem_append] at hc
    rcases hc with hc | hc
    · exact List.mem_of_mem_take hc
    · exact List.mem_of_mem_drop hc

theorem normalizeLineInner_subset (s : JString) (group : Option Group) :
    (normalizeLineInner s group).content ⊆ s := by
  unfold normalizeLineInner
  dsimp only
  split_ifs
  · exact removeFirst_subset s _
  · exact removeFirst_subset s _
  · exact List.Subset.refl _

/-- The directives are removed and nothing is put in their place. -/
theorem normalizeLine_subset {s : JString} {line : NormalizedLine}
    (h : normalizeLine s = .ok line) : line.content ⊆ s := by
  by_cases hgroup : ∃ lead c v tail, Directive s lead [c] v tail
  · obtain ⟨lead, c, v, tail, hd⟩ := hgroup
    rw [normalizeLine_of_group hd, Except.ok.injEq,
      ← removeFirst_directivePattern readsName_letter hd ⟨c, rfl, hd.lowercase c (by simp)⟩] at h
    rw [← h]
    exact List.Subset.trans (normalizeLineInner_subset _ _) (removeFirst_subset s _)
  · rw [normalizeLine_of_no_group fun lead c v tail hd => hgroup ⟨lead, c, v, tail, hd⟩,
      Except.ok.injEq] at h
    rw [← h]
    exact normalizeLineInner_subset s none

end ExamGeneratorNg
