import ExamGeneratorNg.Equiv.DirectiveParsing
import ExamGeneratorNg.Placeholder
import ExamGeneratorNg.Regex.Reads
import Mathlib.Data.List.Forall2

/-!
# Correctness of the parsing of placeholders

A `Drawing` is what stands in the cell of a matrix placeholder: a symbol, an index, perhaps a line
index, and a box drawn with dashes and backslashes.  `reads_matrixPlaceholderPattern`: the texts
that are recognised are the drawings with white space around them, where the white space behind
is at most one line end; `parse_drawing`: each is parsed to the placeholder it is a drawing of.

A line placeholder is recognised in upper and lower case and in any mixture of both
(`isLinePlaceholder_iff`), and parsed in upper case only (`parse_linePlaceholder_ok_iff`).
-/

namespace ExamGeneratorNg

open Regex

/-! ### Drawings -/

/-- A number of two digits, as it is written. -/
structure TwoDigits where
  tens : JChar
  ones : JChar
  isDigit_tens : isDigit tens = true
  isDigit_ones : isDigit ones = true

namespace TwoDigits

def print (digits : TwoDigits) : JString := [digits.tens, digits.ones]

/-- The number that is written. -/
def value (digits : TwoDigits) : ℕ :=
  10 * (digits.tens.toNat - (chr '0').toNat) + (digits.ones.toNat - (chr '0').toNat)

theorem print_injective {d d' : TwoDigits} (h : d.print = d'.print) : d = d' := by
  obtain ⟨tens, ones, _, _⟩ := d
  obtain ⟨tens', ones', _, _⟩ := d'
  obtain ⟨rfl, rfl⟩ : tens = tens' ∧ ones = ones' := by simpa [print] using h
  rfl

theorem parseInt_print (digits : TwoDigits) : parseInt digits.print = digits.value := by
  simp [parseInt, print, value]

end TwoDigits

/-- What stands in the cell of a matrix placeholder. -/
structure Drawing where
  kind : MatrixPlaceholder.Kind
  index : TwoDigits
  lineIndex : Option TwoDigits
  minuses : ℕ
  slashes : ℕ

namespace Drawing

/-- The line index with the slash in front of it. -/
def printLineIndex (drawing : Drawing) : JString :=
  match drawing.lineIndex with
  | some digits => chr '/' :: digits.print
  | none => []

/-- The box. -/
def printBox (drawing : Drawing) : JString :=
  List.replicate drawing.minuses (chr '-') ++ List.replicate drawing.slashes (chr '\\')

def print (drawing : Drawing) : JString :=
  drawing.kind.getSymbol ++ (drawing.index.print ++ (drawing.printLineIndex ++ drawing.printBox))

/-- What the drawing stands for. -/
def placeholder (drawing : Drawing) : MatrixPlaceholder where
  width := 3 + drawing.printLineIndex.length + drawing.minuses
  height := drawing.slashes + 1
  index := drawing.index.value
  lineIndex := (drawing.lineIndex.map TwoDigits.value).getD 0
  kind := drawing.kind

/-- The groups of the pattern, when it reads the drawing. -/
def groups (drawing : Drawing) : List (ℕ × JString) :=
  (5, List.replicate drawing.slashes (chr '\\')) ::
    (4, List.replicate drawing.minuses (chr '-')) ::
      ((drawing.lineIndex.map fun digits => (3, chr '/' :: digits.print)).toList ++
        [(2, drawing.index.print), (1, drawing.kind.getSymbol)])

end Drawing

theorem exists_getSymbol_iff {c : JChar} :
    (c = chr '#' || c = chr '!' || c = chr '?') = true ↔
      ∃ kind : MatrixPlaceholder.Kind, kind.getSymbol = [c] := by
  simp only [Bool.or_eq_true, decide_eq_true_eq]
  constructor
  · rintro ((rfl | rfl) | rfl)
    · exact ⟨.code, rfl⟩
    · exact ⟨.output, rfl⟩
    · exact ⟨.secretOutput, rfl⟩
  · rintro ⟨kind, hkind⟩
    cases kind with
    | code => exact .inl (.inl (List.cons.inj hkind).1.symm)
    | output => exact .inl (.inr (List.cons.inj hkind).1.symm)
    | secretOutput => exact .inr (List.cons.inj hkind).1.symm

/-! ### The white space behind a drawing -/

/-- Nothing, or one line end. -/
def IsLineEnd (v : JString) : Prop :=
  v = [] ∨ v = [chr '\n'] ∨ v = [chr '\r'] ∨ v = [chr '\r', chr '\n']

instance (v : JString) : Decidable (IsLineEnd v) :=
  inferInstanceAs (Decidable (v = [] ∨ v = [chr '\n'] ∨ v = [chr '\r'] ∨ v = [chr '\r', chr '\n']))

theorem isSpace_of_isLineEnd {v : JString} (hv : IsLineEnd v) : ∀ c ∈ v, isSpace c = true := by
  rcases hv with rfl | rfl | rfl | rfl <;> decide

/-- Behind a character that is no carriage return, `$` holds in front of white space if and only
if that is a line end. -/
theorem atEnd_space_iff {before v : JString} (hbefore : before.head? ≠ some (chr '\r'))
    (hv : ∀ c ∈ v, isSpace c = true) : atEnd before v = true ↔ IsLineEnd v := by
  match v with
  | [] => simp [atEnd, IsLineEnd]
  | [c] =>
    have hc : isSpace c = true := hv c (by simp)
    simp only [atEnd, hbefore, decide_false, Bool.and_false, Bool.not_false, Bool.and_true,
      IsLineEnd]
    constructor
    · intro hterm
      simp only [isSpace, Bool.or_eq_true, decide_eq_true_eq] at hc
      rcases hc with ((((rfl | rfl) | rfl) | rfl) | rfl) | rfl
      · exact absurd hterm (by decide)
      · exact absurd hterm (by decide)
      · exact .inr (.inl rfl)
      · exact absurd hterm (by decide)
      · exact absurd hterm (by decide)
      · exact .inr (.inr (.inl rfl))
    · rintro (h | h | h | h)
      · cases h
      · rw [(List.cons.inj h).1]
        decide
      · rw [(List.cons.inj h).1]
        decide
      · cases (List.cons.inj h).2
  | [c, d] => simp [atEnd, IsLineEnd]
  | c :: d :: e :: v => simp [atEnd, IsLineEnd]

/-! ### Recognising drawings -/

theorem readsAs_symbol :
    (Pattern.one fun c => c = chr '#' || c = chr '!' || c = chr '?').ReadsAs
      MatrixPlaceholder.Kind.getSymbol fun _ => [] := by
  intro before w after groups groups'
  rw [Pattern.reads_one]
  constructor
  · rintro ⟨⟨c, rfl, hc⟩, rfl⟩
    obtain ⟨kind, hkind⟩ := exists_getSymbol_iff.mp hc
    exact ⟨kind, hkind.symm, rfl⟩
  · rintro ⟨kind, rfl, rfl⟩
    obtain ⟨c, hkind⟩ : ∃ c, kind.getSymbol = [c] := by cases kind <;> exact ⟨_, rfl⟩
    exact ⟨⟨c, hkind, exists_getSymbol_iff.mpr ⟨kind, hkind⟩⟩, rfl⟩

theorem readsAs_twoDigits :
    MatrixPlaceholder.twoDigits.ReadsAs TwoDigits.print fun _ => [] := by
  intro before w after groups groups'
  simp only [MatrixPlaceholder.twoDigits, Pattern.reads_seq, Pattern.reads_one]
  constructor
  · rintro ⟨_, _, _, rfl, ⟨⟨tens, rfl, htens⟩, rfl⟩, ⟨ones, rfl, hones⟩, rfl⟩
    exact ⟨⟨tens, ones, htens, hones⟩, rfl, rfl⟩
  · rintro ⟨⟨tens, ones, htens, hones⟩, rfl, rfl⟩
    exact ⟨[tens], [ones], _, rfl, ⟨⟨tens, rfl, htens⟩, rfl⟩, ⟨ones, rfl, hones⟩, rfl⟩

/-- The line index, with the slash in front of it. -/
theorem readsAs_lineIndex :
    (Pattern.seq (.word [chr '/']) MatrixPlaceholder.twoDigits).ReadsAs
      (fun digits : TwoDigits => chr '/' :: digits.print) fun _ => [] := by
  intro before w after groups groups'
  simp only [Pattern.reads_seq, Pattern.reads_word]
  constructor
  · rintro ⟨_, _, _, rfl, ⟨rfl, rfl⟩, hdigits⟩
    obtain ⟨digits, rfl, rfl⟩ := (readsAs_twoDigits _ _ _ _ _).mp hdigits
    exact ⟨digits, rfl, rfl⟩
  · rintro ⟨digits, rfl, rfl⟩
    exact ⟨_, _, _, rfl, ⟨rfl, rfl⟩, (readsAs_twoDigits _ _ _ _ _).mpr ⟨digits, rfl, rfl⟩⟩

/-- A run of one character. -/
theorem readsAs_replicate (c : JChar) :
    (Pattern.many fun a => decide (a = c)).ReadsAs (fun n => List.replicate n c) fun _ => [] := by
  refine Pattern.readsAs_many fun w => ?_
  simp only [decide_eq_true_eq]
  constructor
  · intro h
    exact ⟨w.length, List.eq_replicate_of_mem h⟩
  · rintro ⟨n, rfl⟩ a ha
    exact List.eq_of_mem_replicate ha

theorem not_isSpace_of_isDigit {c : JChar} (h : isDigit c = true) : isSpace c = false := by
  unfold isDigit at h
  unfold isSpace
  simp only [Bool.and_eq_true, decide_eq_true_eq] at h
  have hge : (chr '0').toNat ≤ c.toNat := UInt16.le_iff_toNat_le.mp h.1
  simp only [Bool.or_eq_false_iff, decide_eq_false_iff_not]
  refine ⟨⟨⟨⟨⟨?_, ?_⟩, ?_⟩, ?_⟩, ?_⟩, ?_⟩ <;>
  · rintro rfl
    exact absurd hge (by decide)

theorem not_isLowercase_of_isDigit {c : JChar} (h : isDigit c = true) : isLowercase c = false := by
  unfold isDigit at h
  unfold isLowercase
  simp only [Bool.and_eq_true, decide_eq_true_eq] at h
  have hle : c.toNat ≤ (chr '9').toNat := UInt16.le_iff_toNat_le.mp h.2
  rw [Bool.and_eq_false_iff, decide_eq_false_iff_not, UInt16.le_iff_toNat_le]
  exact .inl fun ha => absurd (ha.trans hle) (by decide)

theorem TwoDigits.isDigit_of_mem {digits : TwoDigits} {c : JChar} (hc : c ∈ digits.print) :
    isDigit c = true := by
  simp only [print, List.mem_cons, List.not_mem_nil, or_false] at hc
  rcases hc with rfl | rfl
  · exact digits.isDigit_tens
  · exact digits.isDigit_ones

/-- The characters of a drawing are its marks and digits. -/
theorem Drawing.forall_mem_print (drawing : Drawing) {P : JChar → Prop}
    (hmarks : ∀ c ∈ jstr "#!?/-\\", P c) (hdigits : ∀ c, isDigit c = true → P c) :
    ∀ c ∈ drawing.print, P c := by
  intro c hc
  simp only [print, printBox, List.mem_append] at hc
  rcases hc with hc | hc | hc | hc | hc
  · refine hmarks c ?_
    cases hkind : drawing.kind <;> rw [hkind] at hc <;> revert c <;> decide
  · exact hdigits c (TwoDigits.isDigit_of_mem hc)
  · unfold printLineIndex at hc
    split at hc
    · rcases List.mem_cons.mp hc with rfl | hc
      · exact hmarks _ (by decide)
      · exact hdigits c (TwoDigits.isDigit_of_mem hc)
    · cases hc
  · rw [List.eq_of_mem_replicate hc]
    exact hmarks _ (by decide)
  · rw [List.eq_of_mem_replicate hc]
    exact hmarks _ (by decide)

/-- There is no white space in a drawing. -/
theorem Drawing.not_isSpace (drawing : Drawing) : ∀ c ∈ drawing.print, isSpace c = false :=
  drawing.forall_mem_print (by decide) fun _ => not_isSpace_of_isDigit

theorem Drawing.not_isLowercase (drawing : Drawing) :
    ∀ c ∈ drawing.print, isLowercase c = false :=
  drawing.forall_mem_print (by decide) fun _ => not_isLowercase_of_isDigit

theorem Drawing.print_ne_nil (drawing : Drawing) : drawing.print ≠ [] := by
  intro h
  have hlength := congrArg List.length h
  simp [print, TwoDigits.print] at hlength

/-- Behind a drawing, `$` holds in front of white space if and only if that is a line end. -/
theorem atEnd_drawing_iff (drawing : Drawing) (u : JString) {v : JString}
    (hv : ∀ c ∈ v, isSpace c = true) :
    atEnd (drawing.print.reverse ++ u) v = true ↔ IsLineEnd v := by
  apply atEnd_space_iff _ hv
  rw [List.head?_append_of_ne_nil _ (List.reverse_ne_nil_iff.mpr drawing.print_ne_nil)]
  intro hhead
  have hmem := List.mem_reverse.mp (List.mem_of_mem_head? hhead)
  exact absurd (drawing.not_isSpace _ hmem) (by decide)

/-- A drawing, in front of whatever the pattern goes on with. -/
theorem reads_drawing {r : Pattern JChar} {before w after : JString}
    {groups groups' : List (ℕ × JString)} :
    (Pattern.seq (.group 1 (.one fun c => c = chr '#' || c = chr '!' || c = chr '?')) <|
      .seq (.group 2 MatrixPlaceholder.twoDigits) <|
      .seq (.optional (.group 3 (.seq (.word [chr '/']) MatrixPlaceholder.twoDigits))) <|
      .seq (.group 4 (.many (· = chr '-'))) <|
      .seq (.group 5 (.many (· = chr '\\'))) r).Reads before w after groups groups' ↔
        ∃ (drawing : Drawing) (v : JString), w = drawing.print ++ v ∧
          r.Reads (drawing.print.reverse ++ before) v after (drawing.groups ++ groups) groups' := by
  rw [readsAs_symbol.group.reads_seq]
  simp only [readsAs_twoDigits.group.reads_seq, readsAs_lineIndex.group.optional.reads_seq,
    (readsAs_replicate _).group.reads_seq]
  have hprint : ∀ kind index lineIndex minuses slashes,
      (Drawing.mk kind index lineIndex minuses slashes).print = kind.getSymbol ++ (index.print ++
        ((lineIndex.map fun digits => chr '/' :: digits.print).getD [] ++
          (List.replicate minuses (chr '-') ++ List.replicate slashes (chr '\\')))) := by
    intro kind index lineIndex minuses slashes
    cases lineIndex <;> rfl
  have hgroups : ∀ kind index lineIndex minuses slashes,
      (Drawing.mk kind index lineIndex minuses slashes).groups ++ groups
        = [(5, List.replicate slashes (chr '\\'))] ++ ([(4, List.replicate minuses (chr '-'))] ++
          ((lineIndex.map fun digits => [(3, chr '/' :: digits.print)]).getD [] ++
            ([(2, index.print)] ++ ([(1, kind.getSymbol)] ++ groups)))) := by
    intro kind index lineIndex minuses slashes
    cases lineIndex <;> rfl
  constructor
  · rintro ⟨kind, _, rfl, index, _, rfl, lineIndex, _, rfl, minuses, _, rfl, slashes, v, rfl, h⟩
    refine ⟨⟨kind, index, lineIndex, minuses, slashes⟩, v, ?_, ?_⟩
    · simp [hprint]
    · rw [hgroups, hprint]
      simpa using h
  · rintro ⟨⟨kind, index, lineIndex, minuses, slashes⟩, v, rfl, h⟩
    rw [hgroups, hprint] at h
    exact ⟨kind, _, by simp [hprint], index, _, rfl, lineIndex, _, rfl, minuses, _, rfl, slashes, v,
      rfl, by simpa using h⟩

/-- **What is recognised as a matrix placeholder**: a drawing with white space in front of it and
at most a line end behind it. -/
theorem reads_matrixPlaceholderPattern {text : JString} {groups : List (ℕ × JString)} :
    MatrixPlaceholder.matrixPlaceholderPattern.Reads [] text [] [] groups ↔
      ∃ (u : JString) (drawing : Drawing) (v : JString), text = u ++ drawing.print ++ v ∧
        (∀ c ∈ u, isSpace c = true) ∧ IsLineEnd v ∧ groups = drawing.groups := by
  constructor
  · rintro ⟨_, _, _, rfl, ⟨rfl, -, rfl⟩, u, _, _, rfl, ⟨hu, rfl⟩, h⟩
    obtain ⟨drawing, _, rfl, _, v, _, rfl, ⟨rfl, hend, rfl⟩, hv, rfl⟩ := reads_drawing.mp h
    refine ⟨u, drawing, v, by simp, hu, ?_, by simp⟩
    exact (atEnd_drawing_iff drawing _ hv).mp (by simpa using hend)
  · rintro ⟨u, drawing, v, rfl, hu, hv, rfl⟩
    have hspace := isSpace_of_isLineEnd hv
    refine ⟨[], _, [], rfl, ⟨rfl, rfl, rfl⟩, u, drawing.print ++ v, [], by simp, ⟨hu, rfl⟩,
      reads_drawing.mpr ⟨drawing, v, rfl, [], v, _, rfl, ⟨rfl, ?_, rfl⟩, hspace, by simp⟩⟩
    simpa using (atEnd_drawing_iff drawing _ hspace).mpr hv

/-! ### Parsing drawings -/

/-- A text is at most one drawing. -/
theorem Drawing.text_unique {u u' v v' : JString} {drawing drawing' : Drawing}
    (hu : ∀ c ∈ u, isSpace c = true) (hu' : ∀ c ∈ u', isSpace c = true)
    (hv : ∀ c ∈ v, isSpace c = true) (hv' : ∀ c ∈ v', isSpace c = true)
    (h : u ++ drawing.print ++ v = u' ++ drawing'.print ++ v') :
    u = u' ∧ drawing.print = drawing'.print ∧ v = v' := by
  -- the white space in front ends where the drawing begins
  have hhead : ∀ (drawing : Drawing) (v : JString),
      ∀ c ∈ (drawing.print ++ v).head?, isSpace c = false := by
    intro drawing v c hc
    rw [List.head?_append_of_ne_nil _ drawing.print_ne_nil] at hc
    exact drawing.not_isSpace c (List.mem_of_mem_head? hc)
  -- and the drawing ends where the white space behind it begins
  have htail : ∀ v : JString, (∀ c ∈ v, isSpace c = true) →
      ∀ c ∈ v.head?, (!isSpace c) = false := by
    intro v hv c hc
    rw [hv c (List.mem_of_mem_head? hc)]
    rfl
  rw [List.append_assoc, List.append_assoc] at h
  have hsplit := takeWhile_dropWhile_append hu (hhead drawing v)
  have hsplit' := takeWhile_dropWhile_append hu' (hhead drawing' v')
  rw [h] at hsplit
  have hrest : drawing.print ++ v = drawing'.print ++ v' := hsplit.2.symm.trans hsplit'.2
  have hspaces : ∀ drawing : Drawing, ∀ c ∈ drawing.print, (!isSpace c) = true := by
    intro drawing c hc
    rw [drawing.not_isSpace c hc]
    rfl
  have hbox := takeWhile_dropWhile_append (hspaces drawing) (htail v hv)
  have hbox' := takeWhile_dropWhile_append (hspaces drawing') (htail v' hv')
  rw [hrest] at hbox
  exact ⟨hsplit.1.symm.trans hsplit'.1, hbox.1.symm.trans hbox'.1, hbox.2.symm.trans hbox'.2⟩

theorem isMatrixPlaceholder_iff {text : JString} :
    MatrixPlaceholder.isMatrixPlaceholder text = true ↔
      ∃ (u : JString) (drawing : Drawing) (v : JString), text = u ++ drawing.print ++ v ∧
        (∀ c ∈ u, isSpace c = true) ∧ IsLineEnd v := by
  rw [MatrixPlaceholder.isMatrixPlaceholder, Pattern.isSome_matchWhole_iff]
  simp only [reads_matrixPlaceholderPattern]
  constructor
  · rintro ⟨_, u, drawing, v, htext, hu, hv, -⟩
    exact ⟨u, drawing, v, htext, hu, hv⟩
  · rintro ⟨u, drawing, v, htext, hu, hv⟩
    exact ⟨_, u, drawing, v, htext, hu, hv, rfl⟩

theorem length_getSymbol {kind : MatrixPlaceholder.Kind} : kind.getSymbol.length = 1 := by
  cases kind <;> rfl

theorem tryFindKindBy_getSymbol (kind : MatrixPlaceholder.Kind) :
    MatrixPlaceholder.Kind.tryFindKindBy kind.getSymbol = .ok kind := by
  cases kind <;> rfl

/-- The end of a run of one character is where another character, or nothing, comes. -/
theorem replicate_append_inj {c : JChar} {n n' : ℕ} {s s' : JString} (hs : ∀ d ∈ s, d ≠ c)
    (hs' : ∀ d ∈ s', d ≠ c) (h : List.replicate n c ++ s = List.replicate n' c ++ s') :
    n = n' ∧ s = s' := by
  have hrun : ∀ n : ℕ, ∀ d ∈ List.replicate n c, decide (d = c) = true := by
    intro n d hd
    rw [List.eq_of_mem_replicate hd]
    exact decide_eq_true rfl
  have hhead : ∀ s : JString, (∀ d ∈ s, d ≠ c) → ∀ d ∈ s.head?, decide (d = c) = false := by
    intro s hs d hd
    exact decide_eq_false (hs d (List.mem_of_mem_head? hd))
  have hsplit := takeWhile_dropWhile_append (hrun n) (hhead s hs)
  have hsplit' := takeWhile_dropWhile_append (hrun n') (hhead s' hs')
  rw [h] at hsplit
  have hn : List.replicate n c = List.replicate n' c := hsplit.1.symm.trans hsplit'.1
  refine ⟨?_, hsplit.2.symm.trans hsplit'.2⟩
  simpa using congrArg List.length hn

theorem Drawing.printBox_injective {m m' b b' : ℕ}
    (h : List.replicate m (chr '-') ++ List.replicate b (chr '\\')
      = List.replicate m' (chr '-') ++ List.replicate b' (chr '\\')) : m = m' ∧ b = b' := by
  have hslash : ∀ b : ℕ, ∀ d ∈ List.replicate b (chr '\\'), d ≠ chr '-' := by
    intro b d hd
    rw [List.eq_of_mem_replicate hd]
    decide
  obtain ⟨hm, hb⟩ := replicate_append_inj (hslash b) (hslash b') h
  exact ⟨hm, by simpa using congrArg List.length hb⟩

/-- The box of a drawing is not a line index. -/
theorem slash_notMem_printBox (drawing : Drawing) : chr '/' ∉ drawing.printBox := by
  intro h
  rcases List.mem_append.mp h with h | h
  · exact absurd (List.eq_of_mem_replicate h) (by decide)
  · exact absurd (List.eq_of_mem_replicate h) (by decide)

/-- **A drawing can be read in one way only.** -/
theorem Drawing.print_injective {drawing drawing' : Drawing}
    (h : drawing.print = drawing'.print) : drawing = drawing' := by
  have hbox := slash_notMem_printBox drawing
  have hbox' := slash_notMem_printBox drawing'
  obtain ⟨kind, index, lineIndex, minuses, slashes⟩ := drawing
  obtain ⟨kind', index', lineIndex', minuses', slashes'⟩ := drawing'
  obtain ⟨hkind, h⟩ := List.append_inj h (length_getSymbol.trans length_getSymbol.symm)
  obtain ⟨hindex, h⟩ := List.append_inj h rfl
  obtain rfl : kind = kind' := by
    have hfound := (tryFindKindBy_getSymbol kind).symm.trans
      ((congrArg _ hkind).trans (tryFindKindBy_getSymbol kind'))
    exact Except.ok.inj hfound
  obtain rfl := TwoDigits.print_injective hindex
  dsimp only [printLineIndex] at h
  cases lineIndex with
  | none =>
    cases lineIndex' with
    | none =>
      obtain ⟨rfl, rfl⟩ := printBox_injective h
      rfl
    | some digits' =>
      rw [List.nil_append] at h
      exact absurd (h ▸ List.mem_cons_self) hbox
  | some digits =>
    cases lineIndex' with
    | none =>
      rw [List.nil_append] at h
      exact absurd (h ▸ List.mem_cons_self) hbox'
    | some digits' =>
      obtain ⟨hdigits, h⟩ := List.append_inj h rfl
      obtain rfl := TwoDigits.print_injective (List.cons.inj hdigits).2
      obtain ⟨rfl, rfl⟩ := printBox_injective h
      rfl

/-- What the groups of a drawing are parsed to. -/
theorem parse_of_groups {text : JString} {m : MatchResult JChar} {drawing : Drawing}
    (hmatch : MatrixPlaceholder.matrixPlaceholderPattern.matchWhole text = some m)
    (hgroups : m.groups = drawing.groups) :
    MatrixPlaceholder.parse text = .ok drawing.placeholder := by
  obtain ⟨kind, index, lineIndex, minuses, slashes⟩ := drawing
  have hwidth : kind.getSymbol.length + index.print.length = 3 :=
    congrArg (· + 2) length_getSymbol
  have hheight : 1 + slashes = slashes + 1 := Nat.add_comm 1 slashes
  unfold MatrixPlaceholder.parse
  rw [hmatch]
  simp only [MatchResult.group, hgroups]
  cases lineIndex with
  | none =>
    simp [Drawing.groups, List.lookup_cons, tryFindKindBy_getSymbol, Drawing.placeholder,
      Drawing.printLineIndex, TwoDigits.parseInt_print, hwidth, hheight]
  | some digits =>
    simp [Drawing.groups, List.lookup_cons, tryFindKindBy_getSymbol, Drawing.placeholder,
      Drawing.printLineIndex, TwoDigits.parseInt_print, hwidth, hheight]

/-- **A drawing that is recognised is parsed to what it stands for.** -/
theorem parse_drawing {u v : JString} (drawing : Drawing) (hu : ∀ c ∈ u, isSpace c = true)
    (hv : IsLineEnd v) :
    MatrixPlaceholder.parse (u ++ drawing.print ++ v) = .ok drawing.placeholder := by
  have hmatches := isMatrixPlaceholder_iff.mpr ⟨u, drawing, v, rfl, hu, hv⟩
  obtain ⟨m, hm⟩ := Option.isSome_iff_exists.mp hmatches
  obtain ⟨u', drawing', v', htext, hu', hv', hgroups⟩ :=
    reads_matrixPlaceholderPattern.mp (Pattern.reads_of_matchWhole hm)
  obtain ⟨-, hprint, -⟩ := Drawing.text_unique hu hu' (isSpace_of_isLineEnd hv)
    (isSpace_of_isLineEnd hv') htext
  obtain rfl := Drawing.print_injective hprint
  exact parse_of_groups hm hgroups

/-- Every recognised matrix placeholder parses. -/
theorem exists_parse_of_isMatrixPlaceholder {text : JString}
    (h : MatrixPlaceholder.isMatrixPlaceholder text = true) :
    ∃ placeholder, MatrixPlaceholder.parse text = .ok placeholder := by
  obtain ⟨u, drawing, v, rfl, hu, hv⟩ := isMatrixPlaceholder_iff.mp h
  exact ⟨drawing.placeholder, parse_drawing drawing hu hv⟩

/-! ### White space around a drawing -/

/-- The characters of a text that count for the width of a placeholder. -/
def widthChars (text : JString) : JString := text.filter fun c => !isSpace c && c ≠ chr '\\'

/-- With `u` in front of it and `v` behind it, the drawing is recognised and parsed to the same
placeholder as it is alone. -/
def Drawing.IsReadBetween (drawing : Drawing) (u v : JString) : Prop :=
  MatrixPlaceholder.isMatrixPlaceholder (u ++ drawing.print ++ v) = true ∧
    ∃ placeholder, MatrixPlaceholder.parse (u ++ drawing.print ++ v) = .ok placeholder ∧
      MatrixPlaceholder.parse drawing.print = .ok placeholder ∧
      placeholder.width = (widthChars (u ++ drawing.print ++ v)).length ∧
      placeholder.height = drawing.slashes + 1 ∧ placeholder.index = drawing.index.value ∧
      placeholder.lineIndex = (drawing.lineIndex.map TwoDigits.value).getD 0 ∧
      placeholder.kind = drawing.kind

theorem widthChars_space {v : JString} (hv : ∀ c ∈ v, isSpace c = true) : widthChars v = [] := by
  refine List.filter_eq_nil_iff.mpr fun c hc => ?_
  rw [hv c hc]
  simp

theorem widthChars_append (x y : JString) : widthChars (x ++ y) = widthChars x ++ widthChars y :=
  List.filter_append x y

theorem widthChars_eq_self {x : JString} (hx : ∀ c ∈ x, isSpace c = false ∧ c ≠ chr '\\') :
    widthChars x = x := by
  refine List.filter_eq_self.mpr fun c hc => ?_
  obtain ⟨hspace, hslash⟩ := hx c hc
  simp [hspace, hslash]

/-- All characters of a drawing but its backslashes count. -/
theorem length_widthChars_print (drawing : Drawing) :
    (widthChars drawing.print).length = drawing.placeholder.width := by
  have hslashes : widthChars (List.replicate drawing.slashes (chr '\\')) = [] := by
    refine List.filter_eq_nil_iff.mpr fun c hc => ?_
    rw [List.eq_of_mem_replicate hc]
    simp
  have hsymbol : widthChars drawing.kind.getSymbol = drawing.kind.getSymbol := by
    cases drawing.kind <;> decide
  have hdigits : ∀ digits : TwoDigits, widthChars digits.print = digits.print := by
    intro digits
    refine widthChars_eq_self fun c hc => ?_
    have hdigit := TwoDigits.isDigit_of_mem hc
    refine ⟨not_isSpace_of_isDigit hdigit, ?_⟩
    rintro rfl
    exact absurd hdigit (by decide)
  have hline : widthChars drawing.printLineIndex = drawing.printLineIndex := by
    unfold Drawing.printLineIndex
    split
    · next digits _ =>
      have hcons : chr '/' :: digits.print = [chr '/'] ++ digits.print := rfl
      rw [hcons, widthChars_append, hdigits]
      rfl
    · rfl
  have hminuses : widthChars (List.replicate drawing.minuses (chr '-'))
      = List.replicate drawing.minuses (chr '-') := by
    refine widthChars_eq_self fun c hc => ?_
    rw [List.eq_of_mem_replicate hc]
    decide
  unfold Drawing.print Drawing.printBox
  simp only [widthChars_append, hsymbol, hdigits, hline, hminuses, hslashes, List.append_nil,
    List.length_append, length_getSymbol, List.length_replicate]
  show 1 + (2 + _) = 3 + _ + _
  omega

/-- **When a drawing between white space is recognised**: exactly when what stands behind it is at
most a line end. -/
theorem isReadBetween_iff (drawing : Drawing) {u v : JString} (hu : ∀ c ∈ u, isSpace c = true)
    (hv : ∀ c ∈ v, isSpace c = true) : drawing.IsReadBetween u v ↔ IsLineEnd v := by
  constructor
  · rintro ⟨hmatches, -⟩
    obtain ⟨u', drawing', v', htext, hu', hv'⟩ := isMatrixPlaceholder_iff.mp hmatches
    obtain ⟨-, -, rfl⟩ := Drawing.text_unique hu hu' hv (isSpace_of_isLineEnd hv') htext
    exact hv'
  · intro hend
    refine ⟨isMatrixPlaceholder_iff.mpr ⟨u, drawing, v, rfl, hu, hend⟩, drawing.placeholder,
      parse_drawing drawing hu hend, ?_, ?_, rfl, rfl, rfl, rfl⟩
    · simpa using parse_drawing (u := []) (v := []) drawing (by simp) (.inl rfl)
    · rw [widthChars_append, widthChars_append, widthChars_space hu, widthChars_space hv,
        List.nil_append, List.append_nil, length_widthChars_print]

/-- The drawing `#01`. -/
def code01 : Drawing where
  kind := .code
  index := ⟨chr '0', chr '1', by decide, by decide⟩
  lineIndex := none
  minuses := 0
  slashes := 0

/-- `#01` with a tab in front of it and a line feed behind it. -/
theorem isReadBetween_iff_example :
    code01.IsReadBetween [chr '\t'] [chr '\n'] :=
  (isReadBetween_iff code01 (by decide) (by decide)).mpr (by decide)

/-- A space behind `#01` is enough to hide it. -/
theorem trailing_space_hides_drawing :
    ¬ ∀ (drawing : Drawing) (u v : JString), (∀ c ∈ u, isSpace c = true) →
      (∀ c ∈ v, isSpace c = true) → drawing.IsReadBetween u v := by
  intro h
  have hmatches := (h code01 [] [chr ' '] (by decide) (by decide)).1
  revert hmatches
  decide

/-! ### Line placeholders -/

theorem not_isLowercase_of_isSpace {c : JChar} (h : isSpace c = true) : isLowercase c = false := by
  by_contra hlower
  rw [Bool.not_eq_false] at hlower
  exact absurd (h.symm.trans (not_isSpace_of_isLowercase hlower)) (by decide)

/-- The word `upper`, each letter in upper or in lower case. -/
def IsSpelling (w upper : JString) : Prop :=
  List.Forall₂ (fun d c => d = c ∨ d = c + (chr 'a' - chr 'A')) w upper

theorem reads_wordIgnoringCase {before w after upper : JString}
    {groups groups' : List (ℕ × JString)} :
    (LinePlaceholder.wordIgnoringCase upper).Reads before w after groups groups' ↔
      IsSpelling w upper ∧ groups' = groups := by
  induction upper generalizing before w groups with
  | nil =>
    rw [LinePlaceholder.wordIgnoringCase, Pattern.reads_empty, IsSpelling,
      List.forall₂_nil_right_iff]
  | cons c upper ih =>
    simp only [LinePlaceholder.wordIgnoringCase, Pattern.reads_seq, Pattern.reads_one, ih,
      Bool.or_eq_true, decide_eq_true_eq, IsSpelling, List.forall₂_cons_right_iff]
    constructor
    · rintro ⟨_, w₂, _, rfl, ⟨⟨d, rfl, hd⟩, rfl⟩, hw, hgroups⟩
      exact ⟨⟨d, w₂, hd, hw, rfl⟩, hgroups⟩
    · rintro ⟨⟨d, w₂, hd, hw, rfl⟩, hgroups⟩
      exact ⟨[d], w₂, groups, rfl, ⟨⟨d, rfl, hd⟩, rfl⟩, hw, hgroups⟩

/-- **What is recognised as a line placeholder**: a dollar sign and a spelling of one of the two
words, with white space in front of, between and behind them. -/
theorem isLinePlaceholder_iff {text : JString} :
    LinePlaceholder.isLinePlaceholder text = true ↔
      ∃ u₁ u₂ w u₃ : JString, text = u₁ ++ (chr '$' :: (u₂ ++ (w ++ u₃))) ∧
        (∀ c ∈ u₁, isSpace c = true) ∧ (∀ c ∈ u₂, isSpace c = true) ∧
        (∀ c ∈ u₃, isSpace c = true) ∧ (IsSpelling w (jstr "G") ∨ IsSpelling w (jstr "KIND")) := by
  rw [LinePlaceholder.isLinePlaceholder, Pattern.isSome_matchWhole_iff]
  simp only [LinePlaceholder.linePlaceholderPattern, Pattern.reads_seq, Pattern.reads_look,
    Pattern.reads_many, Pattern.reads_word, Pattern.reads_group, Pattern.reads_alt, beginAnchor,
    endAnchor, reads_wordIgnoringCase]
  constructor
  · rintro ⟨_, _, _, _, rfl, ⟨rfl, -, rfl⟩, u₁, _, _, rfl, ⟨hu₁, rfl⟩, _, _, _, rfl, ⟨rfl, rfl⟩,
      u₂, _, _, rfl, ⟨hu₂, rfl⟩, w, _, _, rfl, ⟨_, hw, rfl⟩, u₃, _, _, rfl, ⟨hu₃, rfl⟩, rfl, -, -⟩
    refine ⟨u₁, u₂, w, u₃, by simp, hu₁, hu₂, hu₃, ?_⟩
    exact hw.imp And.left And.left
  · rintro ⟨u₁, u₂, w, u₃, rfl, hu₁, hu₂, hu₃, hw⟩
    refine ⟨_, [], _, _, rfl, ⟨rfl, rfl, rfl⟩, u₁, _, _, rfl, ⟨hu₁, rfl⟩, [chr '$'], _, _, rfl,
      ⟨rfl, rfl⟩, u₂, _, _, rfl, ⟨hu₂, rfl⟩, w, u₃, _, rfl,
      ⟨[], hw.imp (fun h => ⟨h, rfl⟩) (fun h => ⟨h, rfl⟩), rfl⟩, u₃, [], _, by simp, ⟨hu₃, rfl⟩,
      rfl, ?_, rfl⟩
    rfl

/-- The only spelling without lowercase letters is the word itself. -/
theorem IsSpelling.eq_iff {w upper : JString} (h : IsSpelling w upper)
    (hupper : ∀ c ∈ upper, isLowercase c = false ∧ isLowercase (c + (chr 'a' - chr 'A')) = true) :
    w = upper ↔ ∀ c ∈ w, isLowercase c = false := by
  constructor
  · rintro rfl c hc
    exact (hupper c hc).1
  · intro hw
    induction h with
    | nil => rfl
    | @cons d c w upper hd _ ih =>
      obtain ⟨hc, htail⟩ := List.forall_mem_cons.mp hupper
      obtain ⟨hd', hw'⟩ := List.forall_mem_cons.mp hw
      rcases hd with rfl | rfl
      · rw [ih htail hw']
      · exact absurd (hc.2.symm.trans hd') (by decide)

theorem IsSpelling.not_isSpace {w upper : JString} (h : IsSpelling w upper)
    (hupper : ∀ c ∈ upper, isSpace c = false ∧ isSpace (c + (chr 'a' - chr 'A')) = false) :
    ∀ c ∈ w, isSpace c = false := by
  induction h with
  | nil => simp
  | @cons d c w upper hd _ ih =>
    obtain ⟨hc, htail⟩ := List.forall_mem_cons.mp hupper
    refine List.forall_mem_cons.mpr ⟨?_, ih htail⟩
    rcases hd with rfl | rfl
    · exact hc.1
    · exact hc.2

/-- The symbol that is looked up is what remains of the text without its white space. -/
theorem removeAllWhitespaces_linePlaceholder {u₁ u₂ w u₃ : JString}
    (hu₁ : ∀ c ∈ u₁, isSpace c = true) (hu₂ : ∀ c ∈ u₂, isSpace c = true)
    (hu₃ : ∀ c ∈ u₃, isSpace c = true) (hw : ∀ c ∈ w, isSpace c = false) :
    removeAllWhitespaces (u₁ ++ (chr '$' :: (u₂ ++ (w ++ u₃)))) = chr '$' :: w := by
  have hspaces : ∀ u : JString, (∀ c ∈ u, isSpace c = true) →
      u.filter (fun c => !isSpace c) = [] := by
    intro u hu
    refine List.filter_eq_nil_iff.mpr fun c hc => ?_
    rw [hu c hc]
    simp
  have hword : w.filter (fun c => !isSpace c) = w := by
    refine List.filter_eq_self.mpr fun c hc => ?_
    rw [hw c hc]
    rfl
  have hdollar : ∀ s : JString, (chr '$' :: s).filter (fun c => !isSpace c)
      = chr '$' :: s.filter fun c => !isSpace c := fun s => List.filter_cons_of_pos (by decide)
  rw [removeAllWhitespaces, List.filter_append, hdollar, List.filter_append, List.filter_append,
    hspaces u₁ hu₁, hspaces u₂ hu₂, hspaces u₃ hu₃, hword]
  simp

theorem tryFindKindBy_ok_iff {symbol : JString} :
    (∃ found, LinePlaceholder.Kind.tryFindKindBy symbol = .ok found) ↔
      symbol = jstr "$G" ∨ symbol = jstr "$KIND" := by
  unfold LinePlaceholder.Kind.tryFindKindBy findKindBy
  constructor
  · rintro ⟨found, h⟩
    split at h
    · next found hfind =>
      have hsymbol := List.find?_some hfind
      rw [decide_eq_true_eq] at hsymbol
      cases found with
      | group => exact .inl hsymbol.symm
      | kind => exact .inr hsymbol.symm
    · cases h
  · rintro (rfl | rfl)
    · exact ⟨.group, by decide⟩
    · exact ⟨.kind, by decide⟩

theorem parse_linePlaceholder_eq {text : JString}
    (h : LinePlaceholder.isLinePlaceholder text = true) :
    LinePlaceholder.parse text
      = (LinePlaceholder.Kind.tryFindKindBy (removeAllWhitespaces text)).map
          fun found => ⟨(removeAllWhitespaces text).length, found⟩ := by
  unfold LinePlaceholder.parse
  rw [checkArgument_bind, if_pos h]
  dsimp only
  cases LinePlaceholder.Kind.tryFindKindBy (removeAllWhitespaces text) <;> rfl

/-- **When a recognised line placeholder parses**: exactly when it is written in upper case. -/
theorem parse_linePlaceholder_ok_iff {text : JString}
    (h : LinePlaceholder.isLinePlaceholder text = true) :
    (∃ placeholder, LinePlaceholder.parse text = .ok placeholder) ↔
      ∀ c ∈ text, isLowercase c = false := by
  rw [parse_linePlaceholder_eq h]
  obtain ⟨u₁, u₂, w, u₃, rfl, hu₁, hu₂, hu₃, hw⟩ := isLinePlaceholder_iff.mp h
  have hspace : ∀ c ∈ w, isSpace c = false := by
    rcases hw with hw | hw
    · exact hw.not_isSpace (by decide)
    · exact hw.not_isSpace (by decide)
  -- white space and the dollar sign are not lowercase letters
  have htext : (∀ c ∈ u₁ ++ (chr '$' :: (u₂ ++ (w ++ u₃))), isLowercase c = false) ↔
      ∀ c ∈ w, isLowercase c = false := by
    constructor
    · intro hall c hc
      exact hall c (by simp [hc])
    · intro hword c hc
      simp only [List.mem_append, List.mem_cons] at hc
      rcases hc with hc | rfl | hc | hc | hc
      · exact not_isLowercase_of_isSpace (hu₁ c hc)
      · decide
      · exact not_isLowercase_of_isSpace (hu₂ c hc)
      · exact hword c hc
      · exact not_isLowercase_of_isSpace (hu₃ c hc)
  rw [htext, removeAllWhitespaces_linePlaceholder hu₁ hu₂ hu₃ hspace]
  have hlookup : (∃ placeholder, (LinePlaceholder.Kind.tryFindKindBy (chr '$' :: w)).map
      (fun found => (⟨(chr '$' :: w).length, found⟩ : LinePlaceholder)) = .ok placeholder) ↔
      w = jstr "G" ∨ w = jstr "KIND" := by
    have hcons : ∀ upper : String, chr '$' :: w = chr '$' :: jstr upper ↔ w = jstr upper := by
      intro upper
      simp
    rw [← hcons "G", ← hcons "KIND"]
    refine Iff.trans ?_ tryFindKindBy_ok_iff
    cases LinePlaceholder.Kind.tryFindKindBy (chr '$' :: w) with
    | error e => simp [Except.map]
    | ok found => simp [Except.map]
  rw [hlookup]
  have hletters : ∀ upper ∈ [jstr "G", jstr "KIND"], ∀ c ∈ upper,
      isLowercase c = false ∧ isLowercase (c + (chr 'a' - chr 'A')) = true := by decide
  have hG := fun h : IsSpelling w (jstr "G") => h.eq_iff (hletters _ (by simp))
  have hKIND := fun h : IsSpelling w (jstr "KIND") => h.eq_iff (hletters _ (by simp))
  constructor
  · rintro (rfl | rfl)
    · decide
    · decide
  · intro hlower
    rcases hw with hw | hw
    · exact .inl ((hG hw).mpr hlower)
    · exact .inr ((hKIND hw).mpr hlower)

/-- There are no lowercase letters in the text of a matrix placeholder. -/
theorem not_isLowercase_of_isMatrixPlaceholder {text : JString}
    (h : MatrixPlaceholder.isMatrixPlaceholder text = true) :
    ∀ c ∈ text, isLowercase c = false := by
  obtain ⟨u, drawing, v, rfl, hu, hv⟩ := isMatrixPlaceholder_iff.mp h
  intro c hc
  simp only [List.mem_append] at hc
  rcases hc with (hc | hc) | hc
  · exact not_isLowercase_of_isSpace (hu c hc)
  · exact drawing.not_isLowercase c hc
  · exact not_isLowercase_of_isSpace (isSpace_of_isLineEnd hv c hc)

end ExamGeneratorNg
