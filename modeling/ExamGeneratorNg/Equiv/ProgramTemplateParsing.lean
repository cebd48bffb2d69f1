import ExamGeneratorNg.Equiv.ProgramTemplateRealization
import ExamGeneratorNg.Equiv.StringUtils

/-!
# What a final newline does to a program

`parseProgramTemplate` keeps the empty line behind a final newline, which is then realized for
every group and variant.  `finalNewline_iff`: a code placeholder shows the difference exactly when
the program fills its box to the last line, and whenever the newline takes a carriage return out of
the last line that is shown.
-/

namespace ExamGeneratorNg

/-! ### From the text of a program to its code placeholder -/

/-- A line of the text of a program as it is realized, unless it is left out. -/
def realizeLine (variant : ProgramVariant) (group : Group) (line : JString) : Option JString :=
  match parseLineTemplate line with
  | .ok lineTemplate => realizeLineTemplate lineTemplate variant group
  | .error _ => none

/-- The lines of the text of a program that are realized for the variant and the group. -/
def sourceLines (s : JString) (variant : ProgramVariant) (group : Group) : List JString :=
  (splitByNewline s).filterMap (realizeLine variant group)

/-- What a code placeholder shows of the text of a program. -/
def dumpSource (s : JString) (variant : ProgramVariant) (group : Group)
    (placeholder : MatrixPlaceholder) : Except JavaException LineString := do
  let programTemplate ← parseProgramTemplate s
  dumpProgram (realizeProgramTemplate programTemplate variant group) placeholder

theorem filterMap_realizeLine {lines : List JString} {lineTemplates : List LineTemplate}
    (h : lines.mapM parseLineTemplate = .ok lineTemplates) (variant : ProgramVariant)
    (group : Group) : lineTemplates.filterMap (realizeLineTemplate · variant group)
      = lines.filterMap (realizeLine variant group) := by
  induction lines generalizing lineTemplates with
  | nil =>
    obtain rfl : [] = lineTemplates := Except.ok.inj h
    rfl
  | cons line lines ih =>
    obtain ⟨lineTemplate, hline⟩ := parseLineTemplate_ok line
    obtain ⟨rest, hrest⟩ := mapM_parseLineTemplate_ok lines
    rw [List.mapM_cons, hline, hrest] at h
    obtain rfl : lineTemplate :: rest = lineTemplates := Except.ok.inj h
    have hrealize : realizeLine variant group line
        = realizeLineTemplate lineTemplate variant group := by
      rw [realizeLine, hline]
    rw [List.filterMap_cons, List.filterMap_cons, hrealize, ih hrest]

theorem dumpSource_eq (s : JString) (variant : ProgramVariant) (group : Group)
    (placeholder : MatrixPlaceholder) :
    dumpSource s variant group placeholder
      = dumpProgram ⟨sourceLines s variant group⟩ placeholder := by
  obtain ⟨lineTemplates, h⟩ := mapM_parseLineTemplate_ok (splitByNewline s)
  unfold dumpSource parseProgramTemplate
  rw [h]
  show dumpProgram (realizeProgramTemplate ⟨lineTemplates⟩ variant group) placeholder = _
  rw [realizeProgramTemplate, filterMap_realizeLine h]
  rfl

/-- The empty line is realized for every variant and group. -/
theorem filterMap_realizeLine_nil (variant : ProgramVariant) (group : Group) :
    [[]].filterMap (realizeLine variant group) = [[]] := by
  have hparse : parseLineTemplate [] = .ok ⟨[.text []], .normal, none⟩ := by decide +kernel
  refine List.filterMap_cons_some ?_
  rw [realizeLine, hparse]
  rfl

/-! ### A carriage return at the end of a line -/

/-- The line as it is realized if it has no directive. -/
def realizeText (variant : ProgramVariant) (s : JString) : JString :=
  (gapSplit s).nodes.flatMap (realizeNode · variant)

theorem realizeText_concat (variant : ProgramVariant) {c : JChar} (hc : c ≠ chr '_')
    (s : JString) : realizeText variant (s ++ [c]) = realizeText variant s ++ [c] := by
  unfold realizeText
  induction s using gapSplit_induction with
  | gap s g rest h ih =>
    have h' : gapAt (s ++ [c]) = some (g, rest ++ [c]) := by
      rw [gapAt_concat hc, h]
      rfl
    rw [gapSplit_of_gapAt h, gapSplit_of_gapAt h']
    simp only [GappedLine.nodes] at ih ⊢
    simpa using ih
  | nil =>
    rw [List.nil_append, gapSplit_cons_of_none rfl, gapSplit_nil]
    rfl
  | text d cs h ih =>
    have h' : gapAt (d :: (cs ++ [c])) = none := by
      rw [← List.cons_append, gapAt_concat hc, h]
      rfl
    rw [gapSplit_cons_of_none h, List.cons_append, gapSplit_cons_of_none h']
    simp only [GappedLine.nodes] at ih ⊢
    simpa [realizeNode] using ih

theorem realizeLine_of_normalizeLine {line content : JString} {kind : LineKind}
    {group' : Option Group} (h : normalizeLine line = .ok ⟨content, kind, group'⟩)
    (variant : ProgramVariant) (group : Group) :
    realizeLine variant group line
      = realizeLineTemplate ⟨(gapSplit content).nodes, kind, group'⟩ variant group := by
  rw [realizeLine, parseLineTemplate_of_normalizeLine h (parseNormalizedLine_eq content)]

theorem realizeLine_of_normal {line content : JString}
    (h : normalizeLine line = .ok ⟨content, .normal, none⟩) (variant : ProgramVariant)
    (group : Group) : realizeLine variant group line = some (realizeText variant content) := by
  rw [realizeLine_of_normalizeLine h, realizeLineTemplate, if_pos (.inl rfl)]
  rfl

/-- Whatever the directives say, it is the content that is realized. -/
theorem realizeLine_eq_some {line r : JString} {normalized : NormalizedLine}
    (h : normalizeLine line = .ok normalized) {variant : ProgramVariant} {group : Group}
    (hr : realizeLine variant group line = some r) :
    r = realizeText variant normalized.content := by
  rw [realizeLine_of_normalizeLine h, realizeLineTemplate_eq] at hr
  split_ifs at hr
  exact (Option.some.inj hr).symm

/-- Behind a directive a carriage return is white space. -/
theorem realizeLine_cr_of_endsInDirective {line : JString}
    (h : EndsInDirective (trimRight line)) (variant : ProgramVariant) (group : Group) :
    realizeLine variant group (line ++ [chr '\r']) = realizeLine variant group line := by
  unfold realizeLine parseLineTemplate
  rw [normalizeLine_concat_of_endsInDirective (by decide) h]

/-- Behind anything else a carriage return is realized, and shows. -/
theorem realizeLine_cr_of_not_endsInDirective {line : JString}
    (h : ¬ EndsInDirective (trimRight line)) (variant : ProgramVariant) (group : Group) :
    ∃ r, realizeLine variant group (line ++ [chr '\r']) = some r ∧ r ≠ [] ∧
      realizeLine variant group line ≠ some r := by
  have hcr := realizeText_concat variant (show chr '\r' ≠ chr '_' by decide) line
  refine ⟨realizeText variant line ++ [chr '\r'], ?_, by simp, fun hr => ?_⟩
  · rw [← hcr]
    exact realizeLine_of_normal
      (normalizeLine_concat_of_not_endsInDirective (by decide) h) variant group
  · rcases normalizeLine_of_not_endsInDirective h with hnormal | ⟨normalized, c, hline, hc, hterm,
      hspace⟩
    · have hlength := congrArg List.length (realizeLine_eq_some hnormal hr)
      simp at hlength
    · obtain ⟨content, hcontent⟩ := List.getLast?_eq_some_iff.mp hc
      have hunderscore : c ≠ chr '_' := by
        rintro rfl
        exact absurd hterm (by decide)
      have hr := realizeLine_eq_some hline hr
      rw [hcontent, realizeText_concat variant hunderscore] at hr
      obtain rfl := List.singleton_inj.mp (List.append_inj' hr rfl).2
      exact absurd hspace (by decide)

/-! ### The lines of a text with a final newline -/

/-- The last line of a text. -/
def lastLine (s : JString) : JString := (splitByNewline s).getLast?.getD []

/-- The text ends in a carriage return that stands behind something other than a directive. -/
def ReturnShown (s : JString) : Prop :=
  s.getLast? = some (chr '\r') ∧ ¬ EndsInDirective (trimRight (lastLine s))

/-- A carriage return at the end of a text belongs to the last line. -/
theorem exists_splitByNewline_cr (s : JString) :
    ∃ lines line, splitByNewline s = lines ++ [line] ∧
      splitByNewline (s ++ [chr '\r']) = lines ++ [line ++ [chr '\r']] ∧
      trimRight (lastLine (s ++ [chr '\r'])) = trimRight line := by
  obtain ⟨lines, line, hlines, hcr⟩ := splitLines_append (s := s) (t := [chr '\r'])
    fun _ h => cr_ne_newline (Option.some.inj h)
  have hsplit : splitByNewline (s ++ [chr '\r']) = lines ++ [line ++ [chr '\r']] := by
    rw [splitByNewline_eq, hcr]
    rfl
  refine ⟨lines, line, by rw [splitByNewline_eq, hlines], hsplit, ?_⟩
  rw [lastLine, hsplit, List.getLast?_concat, Option.getD_some, trimRight_append (by decide)]

theorem sourceLines_cr_newline (s : JString) (variant : ProgramVariant) (group : Group) :
    sourceLines (s ++ [chr '\r'] ++ [chr '\n']) variant group
      = sourceLines s variant group ++ [[]] := by
  unfold sourceLines
  rw [List.append_assoc, splitByNewline_eq, List.singleton_append, splitLines_append_cr_newline,
    ← splitByNewline_eq, List.filterMap_append, splitLines, filterMap_realizeLine_nil]

theorem sourceLines_newline {s : JString} (hs : ¬ ReturnShown s) (variant : ProgramVariant)
    (group : Group) :
    sourceLines (s ++ [chr '\n']) variant group = sourceLines s variant group ++ [[]] := by
  by_cases hcr : s.getLast? = some (chr '\r')
  · obtain ⟨s, rfl⟩ := List.getLast?_eq_some_iff.mp hcr
    obtain ⟨lines, line, hlines, hlines', htrim⟩ := exists_splitByNewline_cr s
    have hdirective : EndsInDirective (trimRight line) := by
      by_contra h
      exact hs ⟨hcr, by rwa [htrim]⟩
    rw [sourceLines_cr_newline]
    unfold sourceLines
    rw [hlines, hlines', List.filterMap_append, List.filterMap_append, List.filterMap_cons,
      List.filterMap_cons, realizeLine_cr_of_endsInDirective hdirective]
  · unfold sourceLines
    rw [splitByNewline_eq, splitLines_append_newline hcr, ← splitByNewline_eq,
      List.filterMap_append, splitLines, filterMap_realizeLine_nil]

/-- A carriage return that shows makes another line of the last one. -/
theorem exists_sourceLines_of_returnShown {s : JString} (hs : ReturnShown s)
    (variant : ProgramVariant) (group : Group) :
    ∃ lines r rest, sourceLines s variant group = lines ++ [r] ∧
      sourceLines (s ++ [chr '\n']) variant group = lines ++ rest ∧ r ≠ [] ∧
      rest.head? ≠ some r := by
  obtain ⟨hcr, hdirective⟩ := hs
  obtain ⟨s, rfl⟩ := List.getLast?_eq_some_iff.mp hcr
  obtain ⟨lines, line, hlines, hlines', htrim⟩ := exists_splitByNewline_cr s
  rw [htrim] at hdirective
  obtain ⟨r, hr, hne, hother⟩ := realizeLine_cr_of_not_endsInDirective hdirective variant group
  refine ⟨lines.filterMap (realizeLine variant group), r,
    [line].filterMap (realizeLine variant group) ++ [[]], ?_, ?_, hne, ?_⟩
  · unfold sourceLines
    rw [hlines', List.filterMap_append, List.filterMap_cons_some hr]
    rfl
  · rw [sourceLines_cr_newline, sourceLines, hlines, List.filterMap_append, List.append_assoc]
  · cases hline : realizeLine variant group line with
    | none =>
      rw [List.filterMap_cons_none hline]
      exact fun h => hne (Option.some.inj h).symm
    | some r' =>
      rw [List.filterMap_cons_some hline]
      exact fun h => hother (hline.trans h)

/-! ### The box of a code placeholder -/

/-- The placeholder refuses both programs, as too high or as too wide. -/
def MatrixPlaceholder.RefusesAlike (placeholder : MatrixPlaceholder) (lines lines' : List JString) :
    Prop :=
  placeholder.height < lines.length ∧ placeholder.height < lines'.length ∨
    (lines.length ≤ placeholder.height ∧ lines'.length ≤ placeholder.height) ∧
      ¬ placeholder.WideEnough lines ∧ ¬ placeholder.WideEnough lines'

section

variable {placeholder : MatrixPlaceholder} (hkind : placeholder.kind = .code)

include hkind

/-- When two programs get the same result: both are refused alike, or both fit and are shown
alike. -/
theorem dumpProgram_eq_iff {lines lines' : List JString} :
    dumpProgram ⟨lines⟩ placeholder = dumpProgram ⟨lines'⟩ placeholder ↔
      placeholder.RefusesAlike lines lines' ∨
        placeholder.Fits ⟨lines⟩ ∧ placeholder.Fits ⟨lines'⟩ ∧
          placeholder.pad lines = placeholder.pad lines' := by
  have hmessages : ∀ repr : JString, jstr "Program is too high for placeholder " ++ repr
      ≠ jstr "Program is too wide for placeholder " ++ repr := by
    intro repr h
    exact absurd (List.append_cancel_right h) (by decide)
  rw [MatrixPlaceholder.RefusesAlike, fits_iff, fits_iff, ← Nat.not_le, ← Nat.not_le]
  rcases dumpProgram_cases hkind lines with ⟨h, hdump⟩ | ⟨h, hdump⟩ | ⟨h, hdump⟩
  · rcases dumpProgram_cases hkind lines' with ⟨h', hdump'⟩ | ⟨h', hdump'⟩ | ⟨h', hdump'⟩
    · simp [hdump, hdump', h, h']
    · simp [hdump, hdump', h.not_ge, h', hmessages]
    · simp [hdump, hdump', h.not_ge, h']
  · rcases dumpProgram_cases hkind lines' with ⟨h', hdump'⟩ | ⟨h', hdump'⟩ | ⟨h', hdump'⟩
    · simp [hdump, hdump', h, h'.not_ge, (hmessages _).symm]
    · simp [hdump, hdump', h, h']
    · simp [hdump, hdump', h, h']
  · rcases dumpProgram_cases hkind lines' with ⟨h', hdump'⟩ | ⟨h', hdump'⟩ | ⟨h', hdump'⟩
    · simp [hdump, hdump', h, h'.not_ge]
    · simp [hdump, hdump', h, h']
    · simp [hdump, hdump', h, h']

/-! ### The final newline -/

omit hkind in
theorem length_newline {lines : List JString} : (lines ++ [[]]).length = lines.length + 1 := by
  simp

omit hkind in
theorem wideEnough_newline {lines : List JString} :
    placeholder.WideEnough (lines ++ [[]]) ↔ placeholder.WideEnough lines := by
  unfold MatrixPlaceholder.WideEnough
  simp [or_imp, forall_and]

omit hkind in
/-- One of the empty lines can be the one behind the final newline. -/
theorem pad_newline {lines : List JString} (h : lines.length + 1 ≤ placeholder.height) :
    placeholder.pad (lines ++ [[]]) = placeholder.pad lines := by
  unfold MatrixPlaceholder.pad
  rw [length_newline, List.append_assoc, List.singleton_append, ← List.replicate_succ]
  congr 2
  omega

omit hkind in
/-- With one more empty line a program gets the same result if it does not fill the box. -/
theorem refusesAlike_newline_or {lines : List JString} :
    (placeholder.RefusesAlike lines (lines ++ [[]]) ∨
        placeholder.Fits ⟨lines⟩ ∧ placeholder.Fits ⟨lines ++ [[]]⟩ ∧
          placeholder.pad lines = placeholder.pad (lines ++ [[]])) ↔
      lines.length ≠ placeholder.height := by
  rw [MatrixPlaceholder.RefusesAlike, fits_iff, fits_iff, length_newline, wideEnough_newline]
  constructor
  · rintro ((⟨h, -⟩ | ⟨⟨-, h⟩, -⟩) | ⟨-, ⟨h, -⟩, -⟩) <;> omega
  · intro hne
    rcases Nat.lt_or_gt_of_ne hne with h | h
    · by_cases hwide : placeholder.WideEnough lines
      · exact .inr ⟨⟨by omega, hwide⟩, ⟨by omega, hwide⟩, (pad_newline (by omega)).symm⟩
      · exact .inl (.inr ⟨⟨by omega, by omega⟩, hwide, hwide⟩)
    · exact .inl (.inl ⟨h, by omega⟩)

omit hkind in
/-- Another line shows. -/
theorem pad_ne {lines rest : List JString} {r : JString} (hr : r ≠ [])
    (hrest : rest.head? ≠ some r) :
    placeholder.pad (lines ++ [r]) ≠ placeholder.pad (lines ++ rest) := by
  intro heq
  unfold MatrixPlaceholder.pad at heq
  rw [List.append_assoc, List.append_assoc, List.append_cancel_left_eq] at heq
  have hhead := congrArg List.head? heq
  rw [List.singleton_append, List.head?_cons, List.head?_append] at hhead
  cases rest with
  | nil =>
    -- an empty line stands there
    rw [List.head?_nil, Option.none_or, List.head?_replicate] at hhead
    split_ifs at hhead
    exact hr (Option.some.inj hhead)
  | cons line rest => exact hrest hhead.symm

/-- A final newline changes nothing: the program does not fill the box to the last line.  Where the
newline takes a carriage return out of the last line, the program is refused with it and without
it. -/
def FinalNewlineUnseen (s : JString) (variant : ProgramVariant) (group : Group)
    (placeholder : MatrixPlaceholder) : Prop :=
  (¬ ReturnShown s → (sourceLines s variant group).length ≠ placeholder.height) ∧
    (ReturnShown s → placeholder.RefusesAlike (sourceLines s variant group)
      (sourceLines s.dropLast variant group ++ [[]]))

/-- **When a final newline does not change the exam.** -/
theorem finalNewline_iff (s : JString) (variant : ProgramVariant) (group : Group) :
    dumpSource (s ++ [chr '\n']) variant group placeholder
        = dumpSource s variant group placeholder ↔
      FinalNewlineUnseen s variant group placeholder := by
  rw [dumpSource_eq, dumpSource_eq, FinalNewlineUnseen, eq_comm, dumpProgram_eq_iff hkind]
  by_cases hs : ReturnShown s
  · obtain ⟨lines, r, rest, hlines, hlines', hr, hrest⟩ :=
      exists_sourceLines_of_returnShown hs variant group
    have hdrop : sourceLines (s ++ [chr '\n']) variant group
        = sourceLines s.dropLast variant group ++ [[]] := by
      obtain ⟨s, rfl⟩ := List.getLast?_eq_some_iff.mp hs.1
      rw [sourceLines_cr_newline, List.dropLast_concat]
    rw [or_iff_left, hdrop]
    · simp [hs]
    · rintro ⟨-, -, hpad⟩
      rw [hlines, hlines'] at hpad
      exact pad_ne hr hrest hpad
  · rw [sourceLines_newline hs, refusesAlike_newline_or]
    simp [hs]

end

/-- The program `f()` in a box with one spare line. -/
theorem finalNewline_iff_example :
    dumpSource (jstr "f()" ++ [chr '\n']) .student .A ⟨3, 2, 1, 0, .code⟩
      = dumpSource (jstr "f()") .student .A ⟨3, 2, 1, 0, .code⟩ := by
  have hreturn : ¬ ReturnShown (jstr "f()") := fun h => absurd h.1 (by decide)
  have hlength : (sourceLines (jstr "f()") .student .A).length = 1 := by decide +kernel
  refine (finalNewline_iff rfl (jstr "f()") .student .A).mpr
    ⟨fun _ => ?_, fun h => absurd h hreturn⟩
  rw [hlength]
  decide

/-- The program `f()` in a box of one line. -/
theorem final_newline_overfills_box :
    ¬ ∀ (s : JString) (variant : ProgramVariant) (group : Group) (placeholder : MatrixPlaceholder),
      s ≠ [] → s.getLast? ≠ some (chr '\n') → placeholder.kind = .code →
      dumpSource (s ++ [chr '\n']) variant group placeholder
        = dumpSource s variant group placeholder := by
  intro h
  have hsame := h (jstr "f()") .student .A ⟨3, 1, 1, 0, .code⟩ (by decide) (by decide) rfl
  have hshown : dumpSource (jstr "f()") .student .A ⟨3, 1, 1, 0, .code⟩ = .ok ⟨[jstr "f()"]⟩ := by
    decide +kernel
  have hrefused : ∃ message, dumpSource (jstr "f()" ++ [chr '\n']) .student .A ⟨3, 1, 1, 0, .code⟩
      = .error message := ⟨_, rfl⟩
  obtain ⟨message, hmessage⟩ := hrefused
  rw [hmessage, hshown] at hsame
  cases hsame

end ExamGeneratorNg
