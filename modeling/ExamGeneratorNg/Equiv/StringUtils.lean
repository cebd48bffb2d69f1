import ExamGeneratorNg.LineTemplateParsing
import ExamGeneratorNg.Regex.Lemmas

/-!
# Correctness of `util.StringUtils`

`splitByNewline_eq`: the pieces between the matches of `\r?\n` are the lines one reads off the
text from left to right (`splitLines`), where a carriage return in front of a line feed belongs to
the line end.  How lines and line ends are put together is then a matter of `splitLines_append`;
`splitByNewline_printLines`: lines come back whatever line ends were put between them.
-/

namespace ExamGeneratorNg

open Regex

/-- The lines of a text, at least one. -/
def splitLines : JString → List JString
  | [] => [[]]
  | c :: s =>
    if c = chr '\n' then [] :: splitLines s
    else if c = chr '\r' ∧ s.head? = some (chr '\n') then splitLines s
    else (splitLines s).modifyHead (c :: ·)

theorem splitLines_newline (s : JString) : splitLines (chr '\n' :: s) = [] :: splitLines s := by
  rw [splitLines, if_pos rfl]

theorem splitLines_cr_newline (s : JString) :
    splitLines (chr '\r' :: chr '\n' :: s) = [] :: splitLines s := by
  rw [splitLines, if_neg (by decide), if_pos ⟨rfl, rfl⟩, splitLines_newline]

theorem modifyHead_self {α : Type} (xs : List α) : xs.modifyHead (fun x => x) = xs :=
  congrFun List.modifyHead_id xs

/-! ### The scan of the newline pattern -/

theorem cr_ne_newline : ¬ chr '\r' = chr '\n' := by decide

theorem lookingAt_newline (before s : JString) :
    newlinePattern.lookingAt before (chr '\n' :: s)
      = some ⟨before.length, before.length + 1, []⟩ := by
  simp [Pattern.lookingAt, newlinePattern, Pattern.ends, Ne.symm cr_ne_newline]

theorem lookingAt_cr_newline (before s : JString) :
    newlinePattern.lookingAt before (chr '\r' :: chr '\n' :: s)
      = some ⟨before.length, before.length + 2, []⟩ := by
  simp [Pattern.lookingAt, newlinePattern, Pattern.ends]

theorem lookingAt_of_no_newline {before s : JString} {c : JChar} (hn : c ≠ chr '\n')
    (hr : ¬(c = chr '\r' ∧ s.head? = some (chr '\n'))) :
    newlinePattern.lookingAt before (c :: s) = none := by
  by_cases hc : c = chr '\r'
  · subst hc
    cases s with
    | nil => simp [Pattern.lookingAt, newlinePattern, Pattern.ends, cr_ne_newline]
    | cons d s =>
      have hd : ¬ d = chr '\n' := fun h => hr ⟨rfl, by rw [h]; rfl⟩
      simp [Pattern.lookingAt, newlinePattern, Pattern.ends, cr_ne_newline, hd]
  · simp [Pattern.lookingAt, newlinePattern, Pattern.ends, hn, hc]

/-- The pieces of the text from place `i` on, when the scan has come to `after`. -/
theorem splitFrom_scan_newlinePattern (before after : JString) {i : ℕ} (hi : i ≤ before.length) :
    Pattern.splitFrom (before.reverse ++ after) i (newlinePattern.scan 0 before after)
      = (splitLines after).modifyHead (before.reverse.drop i ++ ·) := by
  induction hn : after.length using Nat.strongRecOn generalizing before after i with
  | ind n ih =>
    -- a line end closes the piece, and the next one starts behind it
    have hstep : ∀ newline rest : JString, newline ≠ [] → after = newline ++ rest →
        newlinePattern.lookingAt before (newline ++ rest)
          = some ⟨before.length, before.length + newline.length, []⟩ →
        splitLines (newline ++ rest) = [] :: splitLines rest →
        Pattern.splitFrom (before.reverse ++ after) i (newlinePattern.scan 0 before after)
          = (splitLines after).modifyHead (before.reverse.drop i ++ ·) := by
      rintro newline rest hne rfl hmatch hlines
      have hlength : 0 < newline.length := List.length_pos_iff.mpr hne
      have hrest := ih rest.length (by rw [← hn, List.length_append]; omega)
        (newline.reverse ++ before) rest (i := before.length + newline.length) (by simp; omega) rfl
      have htext : (newline.reverse ++ before).reverse ++ rest
          = before.reverse ++ (newline ++ rest) := by simp
      have hdrop : (newline.reverse ++ before).reverse.drop (before.length + newline.length)
          = [] := List.drop_eq_nil_of_le (by simp)
      have htake : (before.reverse ++ (newline ++ rest)).take before.length = before.reverse := by
        rw [← List.length_reverse, List.take_left]
      rw [htext, hdrop] at hrest
      rw [Pattern.scan_of_lookingAt hne hmatch (by simp), Pattern.splitFrom, hlines, htake, hrest]
      simp [modifyHead_self]
    cases after with
    | nil =>
      rw [Pattern.scan]
      show Pattern.splitFrom _ i [] = _
      simp [Pattern.splitFrom, splitLines]
    | cons c s =>
      by_cases hnewline : c = chr '\n'
      · subst hnewline
        exact hstep [chr '\n'] s (by simp) rfl (lookingAt_newline before s) (splitLines_newline s)
      by_cases hcr : c = chr '\r' ∧ s.head? = some (chr '\n')
      · obtain ⟨rfl, hhead⟩ := hcr
        obtain ⟨s, rfl⟩ : ∃ rest, s = chr '\n' :: rest := List.head?_eq_some_iff.mp hhead
        exact hstep [chr '\r', chr '\n'] s (by simp) rfl (lookingAt_cr_newline before s)
          (splitLines_cr_newline s)
      · -- any other character belongs to the piece
        have hrest := ih s.length (by rw [← hn]; simp) (c :: before) s (i := i) (by simp; omega) rfl
        rw [Pattern.scan_cons_of_none (lookingAt_of_no_newline hnewline hcr), splitLines,
          if_neg hnewline, if_neg hcr]
        have htext : (c :: before).reverse ++ s = before.reverse ++ c :: s := by simp
        have hdrop : (c :: before).reverse.drop i = before.reverse.drop i ++ [c] := by
          rw [List.reverse_cons, List.drop_append_of_le_length (by simpa using hi)]
        rw [htext, hdrop] at hrest
        rw [hrest, List.modifyHead_modifyHead]
        congr 1
        funext line
        simp

/-- **`splitByNewline` cuts a text into its lines.** -/
theorem splitByNewline_eq (s : JString) : splitByNewline s = splitLines s := by
  have hscan := splitFrom_scan_newlinePattern [] s (Nat.le_refl 0)
  rw [splitByNewline, Pattern.split, Pattern.findAll]
  refine hscan.trans ?_
  simp [modifyHead_self]

/-! ### Putting texts together -/

/-- Where no line end is put together, the last line of the first text and the first line of the
second one become one line. -/
theorem splitLines_append {s t : JString}
    (h : s.getLast? = some (chr '\r') → t.head? ≠ some (chr '\n')) :
    ∃ lines line, splitLines s = lines ++ [line] ∧
      splitLines (s ++ t) = lines ++ (splitLines t).modifyHead (line ++ ·) := by
  induction s with
  | nil => exact ⟨[], [], rfl, by simp [modifyHead_self]⟩
  | cons c s ih =>
    have htail : s.getLast? = some (chr '\r') → t.head? ≠ some (chr '\n') := by
      intro hs
      refine h ?_
      rw [List.getLast?_cons, hs]
      rfl
    obtain ⟨lines, line, hlines, happend⟩ := ih htail
    rw [List.cons_append]
    by_cases hn : c = chr '\n'
    · refine ⟨[] :: lines, line, ?_, ?_⟩
      · rw [splitLines, if_pos hn, hlines]
        rfl
      · rw [splitLines, if_pos hn, happend]
        rfl
    -- the line feed that would swallow the character is in `s` or nowhere
    have hhead : c = chr '\r' ∧ (s ++ t).head? = some (chr '\n') ↔
        c = chr '\r' ∧ s.head? = some (chr '\n') := by
      refine and_congr_right fun hc => ?_
      cases s with
      | nil =>
        subst hc
        simpa using h rfl
      | cons d s => rfl
    by_cases hr : c = chr '\r' ∧ s.head? = some (chr '\n')
    · refine ⟨lines, line, ?_, ?_⟩
      · rw [splitLines, if_neg hn, if_pos hr, hlines]
      · rw [splitLines, if_neg hn, if_pos (hhead.mpr hr), happend]
    · rw [splitLines, splitLines, if_neg hn, if_neg hr, if_neg hn,
        if_neg fun h' => hr (hhead.mp h'), hlines, happend]
      cases lines with
      | nil =>
        refine ⟨[], c :: line, rfl, ?_⟩
        rw [List.nil_append, List.nil_append, List.modifyHead_modifyHead]
        rfl
      | cons first lines => exact ⟨(c :: first) :: lines, line, rfl, rfl⟩

/-- A line feed ends a line. -/
theorem splitLines_append_newline {s : JString} (hs : s.getLast? ≠ some (chr '\r'))
    (t : JString) : splitLines (s ++ chr '\n' :: t) = splitLines s ++ splitLines t := by
  obtain ⟨lines, line, hlines, happend⟩ := splitLines_append (t := chr '\n' :: t)
    fun h => absurd h hs
  rw [happend, hlines, splitLines_newline, List.modifyHead_cons, List.append_nil,
    List.append_assoc, List.singleton_append]

/-- A carriage return and a line feed end a line. -/
theorem splitLines_append_cr_newline (s t : JString) :
    splitLines (s ++ chr '\r' :: chr '\n' :: t) = splitLines s ++ splitLines t := by
  obtain ⟨lines, line, hlines, happend⟩ := splitLines_append (s := s)
    (t := chr '\r' :: chr '\n' :: t) fun _ h => cr_ne_newline (Option.some.inj h)
  rw [happend, hlines, splitLines_cr_newline, List.modifyHead_cons, List.append_nil,
    List.append_assoc, List.singleton_append]

/-! ### Joining lines -/

/-- A line of a text: it has no line feed in it, and no carriage return at its end. -/
structure TextLine where
  content : JString
  newline_notMem : chr '\n' ∉ content
  getLast?_ne : content.getLast? ≠ some (chr '\r')

/-- What may stand between two lines. -/
inductive LineEnding
  /-- `\n` -/
  | unix
  /-- `\r\n` -/
  | dos
deriving DecidableEq, Repr

/-- The characters of a line ending. -/
def LineEnding.print : LineEnding → JString
  | unix => [chr '\n']
  | dos => [chr '\r', chr '\n']

/-- The text of the lines `first` and `rest`, where `endings i` stands behind line number `i`. -/
def printLines (endings : ℕ → LineEnding) (first : TextLine) : List TextLine → JString
  | [] => first.content
  | next :: rest =>
    first.content ++ (endings 0).print ++ printLines (fun i => endings (i + 1)) next rest

/-- Where there is no line feed, there is one line. -/
theorem splitLines_of_newline_notMem {s : JString} (h : chr '\n' ∉ s) : splitLines s = [s] := by
  induction s with
  | nil => rfl
  | cons c s ih =>
    obtain ⟨hc, hs⟩ := List.ne_and_not_mem_of_not_mem_cons h
    have hhead : ¬(c = chr '\r' ∧ s.head? = some (chr '\n')) :=
      fun hcr => hs (List.mem_of_mem_head? hcr.2)
    rw [splitLines, if_neg (Ne.symm hc), if_neg hhead, ih hs]
    rfl

theorem TextLine.splitLines_content (line : TextLine) :
    splitLines line.content = [line.content] :=
  splitLines_of_newline_notMem line.newline_notMem

/-- Either line ending ends a line. -/
theorem TextLine.splitLines_append (line : TextLine) (ending : LineEnding) (s : JString) :
    splitLines (line.content ++ ending.print ++ s) = line.content :: splitLines s := by
  rw [List.append_assoc]
  cases ending with
  | unix =>
    show splitLines (line.content ++ chr '\n' :: s) = _
    rw [splitLines_append_newline line.getLast?_ne, line.splitLines_content]
    rfl
  | dos =>
    show splitLines (line.content ++ chr '\r' :: chr '\n' :: s) = _
    rw [splitLines_append_cr_newline, line.splitLines_content]
    rfl

theorem splitLines_printLines (endings : ℕ → LineEnding) (first : TextLine)
    (rest : List TextLine) :
    splitLines (printLines endings first rest) = (first :: rest).map TextLine.content := by
  induction rest generalizing endings first with
  | nil => exact first.splitLines_content
  | cons next rest ih =>
    rw [printLines, first.splitLines_append, ih]
    rfl

/-- Behind the last line feed there is one more, empty line. -/
theorem splitLines_joinLines (lines : List TextLine) :
    splitLines (joinLines (lines.map TextLine.content)) = lines.map TextLine.content ++ [[]] := by
  induction lines with
  | nil => rfl
  | cons line lines ih =>
    have hjoin : joinLines ((line :: lines).map TextLine.content)
        = line.content ++ LineEnding.unix.print ++ joinLines (lines.map TextLine.content) :=
      List.flatMap_cons
    rw [hjoin, line.splitLines_append, ih]
    rfl

/-! ### The last line -/

/-- `stringToLines` leaves out the last line if it is empty. -/
theorem stringToLines_of_splitByNewline {s : JString} {lines : List JString}
    (h : splitByNewline s = lines ++ [[]]) : stringToLines s = .ok lines := by
  have htake : (lines ++ [[]]).take ((lines ++ [[]]).length - 1) = lines := by
    rw [List.length_append, List.length_singleton, Nat.add_sub_cancel, List.take_left]
  unfold stringToLines
  dsimp only
  rw [h, listGet_last, htake]
  rfl

/-- `stringToLines` leaves out the line behind the final line feed. -/
theorem stringToLines_newline {s : JString} (hs : s.getLast? ≠ some (chr '\r')) :
    stringToLines (s ++ [chr '\n']) = .ok (splitByNewline s) := by
  refine stringToLines_of_splitByNewline ?_
  rw [splitByNewline_eq, splitByNewline_eq, splitLines_append_newline hs]
  rfl

/-- **Splitting a text inverts joining its lines**, whatever line endings were put between them:
`splitByNewline` gives the lines back, so the line endings do not matter to the program that is
parsed, and `stringToLines` gives back what `joinLines` has joined. -/
theorem splitByNewline_printLines (endings endings' : ℕ → LineEnding) (first : TextLine)
    (rest lines : List TextLine) :
    splitByNewline (printLines endings first rest) = (first :: rest).map TextLine.content ∧
    parseProgramTemplate (printLines endings first rest)
      = parseProgramTemplate (printLines endings' first rest) ∧
    stringToLines (joinLines (lines.map TextLine.content))
      = .ok (lines.map TextLine.content) := by
  have hsplit : ∀ endings, splitByNewline (printLines endings first rest)
      = (first :: rest).map TextLine.content := by
    intro endings
    rw [splitByNewline_eq, splitLines_printLines]
  refine ⟨hsplit endings, ?_, stringToLines_of_splitByNewline ?_⟩
  · rw [parseProgramTemplate, parseProgramTemplate, hsplit endings, hsplit endings']
  · rw [splitByNewline_eq, splitLines_joinLines]

end ExamGeneratorNg
