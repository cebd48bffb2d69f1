import ExamGeneratorNg.Regex.Lemmas

/-!
# What a pattern reads

`Pattern.Reads` says what a pattern reads without saying in which order a matcher tries: a
relation by recursion on the pattern.  `mem_ends_iff`: the candidates of the matcher are exactly
the readings of the pattern, so whether a subject is matched as a whole is a question about
readings (`isSome_matchWhole_iff`), and a match that is found is a reading of the subject
(`reads_of_matchWhole`).

`Pattern.ReadsAs`: a pattern that reads what is written for the values of a type.  A long pattern is
read off one such part after another (`ReadsAs.reads_seq`).
-/

namespace Regex

variable {α : Type*}

namespace Pattern

/-- The pattern reads `w`, where `before` (nearest first) stands in front of `w` and `after`
behind it, and the groups captured so far turn from `groups` to `groups'`. -/
def Reads : Pattern α → (before w after : List α) → (groups groups' : List (ℕ × List α)) → Prop
  | empty, _, w, _, groups, groups' => w = [] ∧ groups' = groups
  | one p, _, w, _, groups, groups' => (∃ a, w = [a] ∧ p a = true) ∧ groups' = groups
  | many p, _, w, _, groups, groups' => (∀ a ∈ w, p a = true) ∧ groups' = groups
  | seq r₁ r₂, before, w, after, groups, groups' =>
    ∃ w₁ w₂ groups₁, w = w₁ ++ w₂ ∧ r₁.Reads before w₁ (w₂ ++ after) groups groups₁ ∧
      r₂.Reads (w₁.reverse ++ before) w₂ after groups₁ groups'
  | alt r₁ r₂, before, w, after, groups, groups' =>
    r₁.Reads before w after groups groups' ∨ r₂.Reads before w after groups groups'
  | optional r, before, w, after, groups, groups' =>
    r.Reads before w after groups groups' ∨ w = [] ∧ groups' = groups
  | group n r, before, w, after, groups, groups' =>
    ∃ groups₁, r.Reads before w after groups groups₁ ∧ groups' = (n, w) :: groups₁
  | look f, before, w, after, groups, groups' =>
    w = [] ∧ f before after = true ∧ groups' = groups

section

variable {p : α → Bool} {r r₁ r₂ : Pattern α} {before w after : List α}
  {groups groups' : List (ℕ × List α)}

theorem reads_empty :
    (empty : Pattern α).Reads before w after groups groups' ↔ w = [] ∧ groups' = groups := Iff.rfl

theorem reads_one : (one p).Reads before w after groups groups' ↔
    (∃ a, w = [a] ∧ p a = true) ∧ groups' = groups := Iff.rfl

theorem reads_many : (many p).Reads before w after groups groups' ↔
    (∀ a ∈ w, p a = true) ∧ groups' = groups := Iff.rfl

theorem reads_seq : (seq r₁ r₂).Reads before w after groups groups' ↔
    ∃ w₁ w₂ groups₁, w = w₁ ++ w₂ ∧ r₁.Reads before w₁ (w₂ ++ after) groups groups₁ ∧
      r₂.Reads (w₁.reverse ++ before) w₂ after groups₁ groups' := Iff.rfl

theorem reads_alt : (alt r₁ r₂).Reads before w after groups groups' ↔
    r₁.Reads before w after groups groups' ∨ r₂.Reads before w after groups groups' := Iff.rfl

theorem reads_optional : (optional r).Reads before w after groups groups' ↔
    r.Reads before w after groups groups' ∨ w = [] ∧ groups' = groups := Iff.rfl

theorem reads_group {n : ℕ} : (group n r).Reads before w after groups groups' ↔
    ∃ groups₁, r.Reads before w after groups groups₁ ∧ groups' = (n, w) :: groups₁ := Iff.rfl

theorem reads_look {f : List α → List α → Bool} :
    (look f).Reads before w after groups groups' ↔
      w = [] ∧ f before after = true ∧ groups' = groups := Iff.rfl

end

/-- A word reads itself. -/
theorem reads_word [DecidableEq α] {v before w after : List α}
    {groups groups' : List (ℕ × List α)} :
    (word v).Reads before w after groups groups' ↔ w = v ∧ groups' = groups := by
  induction v generalizing before w groups with
  | nil => exact reads_empty
  | cons a v ih =>
    simp only [word, reads_seq, reads_one, ih, beq_iff_eq]
    constructor
    · rintro ⟨_, w₂, groups₁, rfl, ⟨⟨b, rfl, rfl⟩, rfl⟩, rfl, hgroups⟩
      exact ⟨rfl, hgroups⟩
    · rintro ⟨rfl, hgroups⟩
      exact ⟨[a], v, groups, rfl, ⟨⟨a, rfl, rfl⟩, rfl⟩, rfl, hgroups⟩

/-! ### Patterns for what is written -/

/-- The pattern reads what is written for the values of a type, and captures groups for each. -/
def ReadsAs {ι : Type*} (r : Pattern α) (written : ι → List α)
    (captured : ι → List (ℕ × List α)) : Prop :=
  ∀ before w after groups groups', r.Reads before w after groups groups' ↔
    ∃ a, w = written a ∧ groups' = captured a ++ groups

section

variable {ι : Type*} {r r₁ r₂ : Pattern α} {written : ι → List α}
  {captured : ι → List (ℕ × List α)}

theorem readsAs_many {p : α → Bool} (h : ∀ w, (∀ a ∈ w, p a = true) ↔ ∃ i, w = written i) :
    (many p).ReadsAs written fun _ => [] := by
  intro before w after groups groups'
  rw [reads_many, h, ← exists_and_right]
  rfl

theorem ReadsAs.group {n : ℕ} (h : r.ReadsAs written captured) :
    (group n r).ReadsAs written fun a => (n, written a) :: captured a := by
  intro before w after groups groups'
  rw [reads_group]
  constructor
  · rintro ⟨groups₁, hr, rfl⟩
    obtain ⟨a, rfl, rfl⟩ := (h _ _ _ _ _).mp hr
    exact ⟨a, rfl, rfl⟩
  · rintro ⟨a, rfl, rfl⟩
    exact ⟨_, (h _ _ _ _ _).mpr ⟨a, rfl, rfl⟩, rfl⟩

theorem ReadsAs.optional (h : r.ReadsAs written captured) :
    (optional r).ReadsAs (fun o : Option ι => (o.map written).getD [])
      fun o => (o.map captured).getD [] := by
  intro before w after groups groups'
  rw [reads_optional, h]
  constructor
  · rintro (⟨a, rfl, rfl⟩ | ⟨rfl, rfl⟩)
    · exact ⟨some a, rfl, rfl⟩
    · exact ⟨none, rfl, rfl⟩
  · rintro ⟨o, rfl, rfl⟩
    cases o with
    | some a => exact .inl ⟨a, rfl, rfl⟩
    | none => exact .inr ⟨rfl, rfl⟩

/-- What is written comes first, and the rest of the pattern reads the rest. -/
theorem ReadsAs.reads_seq (h : r₁.ReadsAs written captured) {before w after : List α}
    {groups groups' : List (ℕ × List α)} :
    (seq r₁ r₂).Reads before w after groups groups' ↔
      ∃ a v, w = written a ++ v ∧
        r₂.Reads ((written a).reverse ++ before) v after (captured a ++ groups) groups' := by
  rw [Pattern.reads_seq]
  constructor
  · rintro ⟨_, v, _, rfl, hr, hrest⟩
    obtain ⟨a, rfl, rfl⟩ := (h _ _ _ _ _).mp hr
    exact ⟨a, v, rfl, hrest⟩
  · rintro ⟨a, v, rfl, hrest⟩
    exact ⟨_, v, _, rfl, (h _ _ _ _ _).mpr ⟨a, rfl, rfl⟩, hrest⟩

end

/-! ### The candidates of the matcher -/

theorem eq_cursor_iff {before s : List α} {groups : List (ℕ × List α)} {d : Cursor α} :
    d = ⟨before, s, groups⟩ ↔ s = d.after ∧ d.before = before ∧ d.groups = groups := by
  obtain ⟨dbefore, dafter, dgroups⟩ := d
  simp only [Cursor.mk.injEq]
  tauto

/-- A greedy run can stop behind every run of the class. -/
theorem mem_manyEnds_iff {p : α → Bool} {groups : List (ℕ × List α)} {before s : List α}
    {d : Cursor α} : d ∈ manyEnds p groups before s ↔
      ∃ w, s = w ++ d.after ∧ d.before = w.reverse ++ before ∧ (∀ a ∈ w, p a = true) ∧
        d.groups = groups := by
  induction s generalizing before with
  | nil =>
    rw [manyEnds, List.mem_singleton, eq_cursor_iff]
    constructor
    · rintro ⟨hs, hbefore, hgroups⟩
      exact ⟨[], hs, hbefore, by simp, hgroups⟩
    · rintro ⟨w, hs, hbefore, -, hgroups⟩
      obtain ⟨rfl, hafter⟩ := List.append_eq_nil_iff.mp hs.symm
      exact ⟨hafter.symm, hbefore, hgroups⟩
  | cons a s ih =>
    rw [manyEnds]
    by_cases ha : p a = true
    · rw [if_pos ha, List.mem_append, List.mem_singleton, ih, eq_cursor_iff]
      constructor
      · rintro (⟨w, rfl, hbefore, hw, hgroups⟩ | ⟨hs, hbefore, hgroups⟩)
        · refine ⟨a :: w, rfl, by simpa using hbefore, ?_, hgroups⟩
          exact List.forall_mem_cons.mpr ⟨ha, hw⟩
        · exact ⟨[], hs, hbefore, by simp, hgroups⟩
      · rintro ⟨w, hs, hbefore, hw, hgroups⟩
        cases w with
        | nil => exact .inr ⟨hs, hbefore, hgroups⟩
        | cons b w =>
          obtain ⟨rfl, rfl⟩ := List.cons.inj hs
          exact .inl ⟨w, rfl, by simpa using hbefore, (List.forall_mem_cons.mp hw).2, hgroups⟩
    · rw [if_neg ha, List.mem_singleton, eq_cursor_iff]
      constructor
      · rintro ⟨hs, hbefore, hgroups⟩
        exact ⟨[], hs, hbefore, by simp, hgroups⟩
      · rintro ⟨w, hs, hbefore, hw, hgroups⟩
        cases w with
        | nil => exact ⟨hs, hbefore, hgroups⟩
        | cons b w =>
          obtain ⟨rfl, -⟩ := List.cons.inj hs
          exact absurd (hw a List.mem_cons_self) ha

/-- **The candidates of the matcher are the readings of the pattern.** -/
theorem mem_ends_iff {r : Pattern α} {before s : List α} {groups : List (ℕ × List α)}
    {d : Cursor α} : d ∈ r.ends ⟨before, s, groups⟩ ↔
      ∃ w, s = w ++ d.after ∧ d.before = w.reverse ++ before ∧
        r.Reads before w d.after groups d.groups := by
  induction r generalizing before s groups d with
  | empty =>
    rw [ends, List.mem_singleton, eq_cursor_iff]
    constructor
    · rintro ⟨hs, hbefore, hgroups⟩
      exact ⟨[], hs, hbefore, rfl, hgroups⟩
    · rintro ⟨w, hs, hbefore, rfl, hgroups⟩
      exact ⟨hs, hbefore, hgroups⟩
  | one p =>
    cases s with
    | nil =>
      rw [ends_one_nil]
      constructor
      · nofun
      · rintro ⟨w, hs, -, ⟨a, rfl, -⟩, -⟩
        cases hs
    | cons a s =>
      rw [ends_one_cons]
      by_cases ha : p a = true
      · rw [if_pos ha, List.mem_singleton, eq_cursor_iff]
        constructor
        · rintro ⟨rfl, hbefore, hgroups⟩
          exact ⟨[a], rfl, hbefore, ⟨a, rfl, ha⟩, hgroups⟩
        · rintro ⟨w, hs, hbefore, ⟨b, rfl, -⟩, hgroups⟩
          obtain ⟨rfl, htail⟩ : a = b ∧ s = d.after := by simpa using hs
          exact ⟨htail, hbefore, hgroups⟩
      · rw [if_neg ha]
        constructor
        · nofun
        · rintro ⟨w, hs, -, ⟨b, rfl, hb⟩, -⟩
          obtain ⟨rfl, -⟩ := List.cons.inj hs
          exact absurd hb ha
  | many p => exact mem_manyEnds_iff
  | seq r₁ r₂ ih₁ ih₂ =>
    rw [ends_seq, List.mem_flatMap]
    constructor
    · rintro ⟨⟨before₁, s₁, groups₁⟩, hd₁, hd⟩
      obtain ⟨w₁, rfl, rfl, h₁⟩ := ih₁.mp hd₁
      obtain ⟨w₂, rfl, hbefore, h₂⟩ := ih₂.mp hd
      refine ⟨w₁ ++ w₂, by simp, ?_, w₁, w₂, groups₁, rfl, h₁, h₂⟩
      rw [hbefore, List.reverse_append, List.append_assoc]
    · rintro ⟨w, hs, hbefore, w₁, w₂, groups₁, rfl, h₁, h₂⟩
      refine ⟨⟨w₁.reverse ++ before, w₂ ++ d.after, groups₁⟩, ih₁.mpr ⟨w₁, ?_, rfl, h₁⟩,
        ih₂.mpr ⟨w₂, rfl, ?_, h₂⟩⟩
      · rw [hs, List.append_assoc]
      · rw [hbefore, List.reverse_append, List.append_assoc]
  | alt r₁ r₂ ih₁ ih₂ =>
    rw [ends, List.mem_append, ih₁, ih₂]
    constructor
    · rintro (⟨w, hs, hbefore, h⟩ | ⟨w, hs, hbefore, h⟩)
      · exact ⟨w, hs, hbefore, .inl h⟩
      · exact ⟨w, hs, hbefore, .inr h⟩
    · rintro ⟨w, hs, hbefore, h | h⟩
      · exact .inl ⟨w, hs, hbefore, h⟩
      · exact .inr ⟨w, hs, hbefore, h⟩
  | optional r ih =>
    rw [ends, List.mem_append, List.mem_singleton, ih, eq_cursor_iff]
    constructor
    · rintro (⟨w, hs, hbefore, h⟩ | ⟨hs, hbefore, hgroups⟩)
      · exact ⟨w, hs, hbefore, .inl h⟩
      · exact ⟨[], hs, hbefore, .inr ⟨rfl, hgroups⟩⟩
    · rintro ⟨w, hs, hbefore, h | ⟨rfl, hgroups⟩⟩
      · exact .inl ⟨w, hs, hbefore, h⟩
      · exact .inr ⟨hs, hbefore, hgroups⟩
  | group n r ih =>
    rw [ends, List.mem_map]
    constructor
    · rintro ⟨⟨before₁, s₁, groups₁⟩, hd₁, rfl⟩
      obtain ⟨w, hs, hbefore, h⟩ := ih.mp hd₁
      refine ⟨w, hs, hbefore, groups₁, h, ?_⟩
      show (n, _) :: groups₁ = _
      rw [Cursor.between_of_before hbefore]
    · rintro ⟨w, hs, hbefore, groups₁, h, hgroups⟩
      refine ⟨⟨d.before, d.after, groups₁⟩, ih.mpr ⟨w, hs, hbefore, h⟩, ?_⟩
      rw [eq_comm, Cursor.capture, Cursor.between_of_before hbefore, eq_cursor_iff]
      exact ⟨rfl, rfl, hgroups⟩
  | look f =>
    rw [ends_look]
    by_cases hf : f before s = true
    · rw [if_pos hf, List.mem_singleton, eq_cursor_iff]
      constructor
      · rintro ⟨rfl, hbefore, hgroups⟩
        exact ⟨[], rfl, hbefore, rfl, hf, hgroups⟩
      · rintro ⟨w, hs, hbefore, rfl, -, hgroups⟩
        exact ⟨hs, hbefore, hgroups⟩
    · rw [if_neg hf]
      constructor
      · nofun
      · rintro ⟨w, hs, -, rfl, hf', -⟩
        rw [hs] at hf
        exact absurd hf' hf

/-! ### Matching the subject as a whole -/

/-- **A subject is matched as a whole if and only if the pattern can read it.** -/
theorem isSome_matchWhole_iff {r : Pattern α} {s : List α} :
    (r.matchWhole s).isSome ↔ ∃ groups, r.Reads [] s [] [] groups := by
  rw [matchWhole, Option.isSome_map, List.find?_isSome]
  constructor
  · rintro ⟨d, hd, hafter⟩
    obtain ⟨w, hs, -, h⟩ := mem_ends_iff.mp hd
    rw [List.isEmpty_iff] at hafter
    rw [hafter] at hs h
    rw [List.append_nil] at hs
    exact ⟨d.groups, hs ▸ h⟩
  · rintro ⟨groups, h⟩
    exact ⟨⟨s.reverse, [], groups⟩, mem_ends_iff.mpr ⟨s, by simp, by simp, h⟩, rfl⟩

/-- What a match of the whole subject has captured is what some reading of it captures. -/
theorem reads_of_matchWhole {r : Pattern α} {s : List α} {m : MatchResult α}
    (h : r.matchWhole s = some m) : r.Reads [] s [] [] m.groups := by
  rw [matchWhole, Option.map_eq_some_iff] at h
  obtain ⟨d, hd, rfl⟩ := h
  obtain ⟨w, hs, -, hreads⟩ := mem_ends_iff.mp (List.mem_of_find?_eq_some hd)
  have hafter : d.after = [] := by simpa using List.find?_some hd
  rw [hafter] at hs hreads
  rw [List.append_nil] at hs
  exact hs ▸ hreads

end Pattern

end Regex
