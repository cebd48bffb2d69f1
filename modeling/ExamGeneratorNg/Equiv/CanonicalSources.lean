import ExamGeneratorNg.Equiv.LineTemplateParsing
import ExamGeneratorNg.Equiv.StringUtils
import ExamGeneratorNg.Equiv.ProgramTemplateLoading
import ExamGeneratorNg.Equiv.ProjectTask

/-!
# Canonical sources

Every source of a program has a canonical form: its template, written down with one space in front
of each directive and with `\r\n` between the lines.  It is parsed to the same template, whatever
the source was (`parseProgramTemplate_canonicalSource`), so two sources have the same canonical
form exactly if they have the same template (`canonicalSource_spec`), and workspaces whose sources
have the same canonical forms give the same exams (`generate_withSources`).

Nothing need be known of the line that is read.  What is written is what has been left of a line,
so there is nothing at its end that could be removed together with the directives behind it
(`normalizeLine_written`).
-/

namespace ExamGeneratorNg

/-! ### What is left of a line -/

section

variable {lead tail : JString}

/-- What is left in front of a directive does not end in white space. -/
theorem not_endsInSpace_of_removed (htail : IsTail tail) :
    ¬ EndsInSpace (trimRight lead ++ tail) := by
  rintro ⟨c, hlast, hspace⟩
  rcases htail with rfl | ⟨d, rfl, -, hd⟩
  · rw [List.append_nil] at hlast
    rw [getLast?_trimRight hlast] at hspace
    cases hspace
  · rw [List.getLast?_concat, Option.mem_some_iff] at hlast
    rw [← hlast, hd] at hspace
    cases hspace

end

@[simp] theorem normalizeLineInner_group (s : JString) (group : Option Group) :
    (normalizeLineInner s group).group = group := by
  unfold normalizeLineInner
  dsimp only
  split_ifs <;> rfl

/-- Either a kind directive is removed, or nothing is. -/
theorem normalizeLineInner_cases (s : JString) (group : Option Group) :
    (normalizeLineInner s group).kind ≠ .normal
        ∧ ¬ EndsInSpace (normalizeLineInner s group).content
      ∨ ∀ group', normalizeLineInner s group' = ⟨s, .normal, group'⟩ := by
  by_cases hexcluded : ∃ lead v tail, Directive s lead (jstr "excluded") v tail
  · obtain ⟨lead, v, tail, h⟩ := hexcluded
    left
    rw [normalizeLineInner_of_excluded h]
    exact ⟨nofun, not_endsInSpace_of_removed h.tail⟩
  by_cases hhidden : ∃ lead v tail, Directive s lead (jstr "hidden") v tail
  · obtain ⟨lead, v, tail, h⟩ := hhidden
    left
    rw [normalizeLineInner_of_hidden h]
    exact ⟨nofun, not_endsInSpace_of_removed h.tail⟩
  right
  apply normalizeLineInner_of_normal
  intro lead w v tail h
  constructor
  · rintro rfl
    exact hexcluded ⟨lead, v, tail, h⟩
  · rintro rfl
    exact hhidden ⟨lead, v, tail, h⟩

/-- The kind that has been removed is found again. -/
theorem normalizeLineInner_written {s u : JString} {group : Option Group}
    (hu : ∀ c ∈ u, isSpace c = true) {line : NormalizedLine}
    (hline : normalizeLineInner s group = line) (group' : Option Group) :
    normalizeLineInner (line.content ++ printKind line.kind u) group'
      = ⟨line.content, line.kind, group'⟩ := by
  rcases normalizeLineInner_cases s group with ⟨hkind, hspace⟩ | hnormal
  · rw [hline] at hkind hspace
    have hdirective := directive_printKind hspace hkind hu (v := []) (by simp)
    rw [List.append_nil] at hdirective
    obtain ⟨w, -, h, -, hinner⟩ := hdirective
    exact hinner _ group' h
  · rw [hnormal group] at hline
    subst hline
    rw [printKind, List.append_nil]
    exact hnormal group'

/-- Nothing is trimmed behind what is left of a line and its kind. -/
theorem trimRight_written {content u v : JString} {kind : LineKind} (hspace : ¬ EndsInSpace content)
    (hv : ∀ c ∈ v, isSpace c = true) :
    trimRight (content ++ printKind kind u ++ v) = content ++ printKind kind u := by
  rw [trimRight_append hv]
  cases kind with
  | normal =>
    rw [printKind, List.append_nil]
    exact trimRight_of_not_endsInSpace hspace
  | hidden =>
    rw [printKind, ← List.append_assoc, trimRight_append_cons (by decide)]
    rfl
  | excluded =>
    rw [printKind, ← List.append_assoc, trimRight_append_cons (by decide)]
    rfl

/-- A letter in a source is the letter of its group. -/
theorem letterGroup_spec {c : JChar} (hc : isLowercase c = true) :
    isLowercase (letterGroup c).letter = true
      ∧ letterGroup (letterGroup c).letter = letterGroup c := by
  simp only [isLowercase, Bool.and_eq_true, decide_eq_true_eq, UInt16.le_iff_toNat_le] at hc
  have ha : (chr 'a').toNat = 97 := by decide
  have hz : (chr 'z').toNat = 122 := by decide
  apply Group.letter_spec
  · show 0 ≤ (c.toNat : ℤ) - (chr 'a').toNat
    omega
  · show (c.toNat : ℤ) - (chr 'a').toNat < 26
    omega

theorem letter_of_normalizeLine {s : JString} {line : NormalizedLine} {group : Group}
    (hline : normalizeLine s = .ok line) (hgroup : line.group = some group) :
    isLowercase group.letter = true ∧ letterGroup group.letter = group := by
  by_cases hdirective : ∃ lead c v tail, Directive s lead [c] v tail
  · obtain ⟨lead, c, v, tail, h⟩ := hdirective
    rw [normalizeLine_of_group h, Except.ok.injEq] at hline
    rw [← hline, normalizeLineInner_group, Option.some.injEq] at hgroup
    rw [← hgroup]
    exact letterGroup_spec (h.lowercase c (by simp))
  · rw [normalizeLine_of_no_group fun lead c v tail h => hdirective ⟨lead, c, v, tail, h⟩,
      Except.ok.injEq] at hline
    rw [← hline, normalizeLineInner_group] at hgroup
    cases hgroup

/-- **What has been removed from a line is found again** where it is written behind what is left of
it. -/
theorem normalizeLine_written {s u₁ u₂ : JString} (hu₁ : ∀ c ∈ u₁, isSpace c = true)
    (hu₂ : ∀ c ∈ u₂, isSpace c = true) {line : NormalizedLine}
    (hline : normalizeLine s = .ok line) :
    normalizeLine (line.content ++ printKind line.kind u₁ ++ printGroup line.group u₂)
      = .ok line := by
  by_cases hgroup : ∃ lead c v tail, Directive s lead [c] v tail
  · obtain ⟨lead, c, v, tail, h⟩ := hgroup
    obtain ⟨hlower, hletter⟩ := letterGroup_spec (h.lowercase c (by simp))
    rw [normalizeLine_of_group h, Except.ok.injEq] at hline
    have hspace : ¬ EndsInSpace line.content := by
      rcases normalizeLineInner_cases (trimRight lead ++ tail) (some (letterGroup c)) with
        ⟨-, hspace⟩ | hnormal
      · rwa [hline] at hspace
      · rw [hnormal] at hline
        rw [← hline]
        exact not_endsInSpace_of_removed h.tail
    have hlineGroup : line.group = some (letterGroup c) := by
      rw [← hline]
      exact normalizeLineInner_group _ _
    have hdirective : Directive
        (line.content ++ printKind line.kind u₁ ++ printGroup line.group u₂)
        (line.content ++ printKind line.kind u₁ ++ u₂) [(letterGroup c).letter] [] [] := by
      refine ⟨?_, by simpa using hlower, by simp, .inl rfl⟩
      rw [hlineGroup]
      simp [printGroup]
    rw [normalizeLine_of_group hdirective, trimRight_written hspace hu₂, List.append_nil, hletter,
      normalizeLineInner_written hu₁ hline, ← hlineGroup]
  · have hnone := normalizeLine_of_no_group fun lead c v tail h => hgroup ⟨lead, c, v, tail, h⟩
    rw [hnone, Except.ok.injEq] at hline
    rcases normalizeLineInner_cases s none with ⟨hkind, hspace⟩ | hnormal
    · have hlineGroup : line.group = none := by
        rw [← hline]
        exact normalizeLineInner_group _ _
      rw [hline] at hkind hspace
      rw [hlineGroup, printGroup, normalizeLine_printKind hspace hkind hu₁ (by simp), ← hlineGroup]
    · rw [hnormal none] at hline
      rw [← hline, printKind, printGroup, List.append_nil, List.append_nil, hnone, hnormal none]

/-! ### Lines and programs in canonical form -/

/-- The line with one space in front of each directive. -/
def printLine (line : LineTemplate) : JString :=
  printNodes line.nodes ++ printKind line.kind (jstr " ") ++ printGroup line.group (jstr " ")

/-- The lines with `\r\n` between them.  With `\n`, a carriage return at the end of a line would
become part of the line end. -/
def printProgram (programTemplate : ProgramTemplate) : JString :=
  List.intercalate (jstr "\r\n") (programTemplate.lineTemplates.map printLine)

/-- The template of a source, written down. -/
def canonicalSource (programTemplateStr : JString) : JString :=
  match parseProgramTemplate programTemplateStr with
  | .ok programTemplate => printProgram programTemplate
  | .error _ => programTemplateStr

theorem parseLineTemplate_eq {lineStr : JString} {normalized : NormalizedLine}
    (h : normalizeLine lineStr = .ok normalized) :
    parseLineTemplate lineStr
      = .ok ⟨(gapSplit normalized.content).nodes, normalized.kind, normalized.group⟩ :=
  parseLineTemplate_of_normalizeLine h (parseNormalizedLine_eq _)

theorem printLine_eq {lineStr : JString} {line : LineTemplate}
    (h : parseLineTemplate lineStr = .ok line) :
    ∃ normalized, normalizeLine lineStr = .ok normalized ∧ printLine line
      = normalized.content ++ printKind normalized.kind (jstr " ")
        ++ printGroup normalized.group (jstr " ") := by
  obtain ⟨normalized, hnormalize⟩ := normalizeLine_ok lineStr
  refine ⟨normalized, hnormalize, ?_⟩
  rw [parseLineTemplate_eq hnormalize, Except.ok.injEq] at h
  rw [← h, printLine, printNodes_nodes, print_gapSplit]

/-- Every line is parsed as its canonical form is. -/
theorem parseLineTemplate_printLine {lineStr : JString} {line : LineTemplate}
    (h : parseLineTemplate lineStr = .ok line) : parseLineTemplate (printLine line) = .ok line := by
  obtain ⟨normalized, hnormalize, hprint⟩ := printLine_eq h
  have hspace : ∀ c ∈ jstr " ", isSpace c = true := by decide
  rw [← h, hprint, parseLineTemplate_eq (normalizeLine_written hspace hspace hnormalize),
    parseLineTemplate_eq hnormalize]

/-- The canonical form of a line is a line. -/
theorem newline_notMem_printLine {lineStr : JString} {line : LineTemplate}
    (h : parseLineTemplate lineStr = .ok line) (hline : chr '\n' ∉ lineStr) :
    chr '\n' ∉ printLine line := by
  obtain ⟨normalized, hnormalize, hprint⟩ := printLine_eq h
  have hcontent : chr '\n' ∉ normalized.content :=
    fun hmem => hline (normalizeLine_subset hnormalize hmem)
  have hkind : chr '\n' ∉ printKind normalized.kind (jstr " ") := by
    cases normalized.kind <;> decide
  have hgroup : chr '\n' ∉ printGroup normalized.group (jstr " ") := by
    cases hsome : normalized.group with
    | none => exact List.not_mem_nil
    | some group =>
      have hlower := (letter_of_normalizeLine hnormalize hsome).1
      simp only [printGroup, List.mem_append, List.mem_cons, List.not_mem_nil, or_false]
      rintro (hmem | hmem | hmem)
      · exact absurd hmem (by decide)
      · exact absurd hmem (by decide)
      · rw [← hmem] at hlower
        exact absurd hlower (by decide)
  rw [hprint, List.mem_append, List.mem_append]
  rintro ((hmem | hmem) | hmem)
  · exact hcontent hmem
  · exact hkind hmem
  · exact hgroup hmem

theorem splitLines_intercalate {lines : List JString} (hne : lines ≠ [])
    (h : ∀ line ∈ lines, chr '\n' ∉ line) :
    splitLines (List.intercalate (jstr "\r\n") lines) = lines := by
  induction lines with
  | nil => exact absurd rfl hne
  | cons line lines ih =>
    obtain ⟨hline, hlines⟩ := List.forall_mem_cons.mp h
    cases lines with
    | nil => rw [List.intercalate_singleton, splitLines_of_newline_notMem hline]
    | cons next rest =>
      have hsplit := splitLines_append_cr_newline line
        (List.intercalate (jstr "\r\n") (next :: rest))
      rw [splitLines_of_newline_notMem hline, ih (by simp) hlines] at hsplit
      rw [List.intercalate_cons_cons, List.append_assoc]
      exact hsplit

/-- No line is left that could be split. -/
theorem splitLines_spec (s : JString) :
    splitLines s ≠ [] ∧ ∀ line ∈ splitLines s, chr '\n' ∉ line := by
  induction s with
  | nil => exact ⟨by simp [splitLines], by simp [splitLines]⟩
  | cons c s ih =>
    obtain ⟨hne, hlines⟩ := ih
    rw [splitLines]
    split_ifs with hn hr
    · exact ⟨by simp, List.forall_mem_cons.mpr ⟨by simp, hlines⟩⟩
    · exact ⟨hne, hlines⟩
    · cases hsplit : splitLines s with
      | nil => exact absurd hsplit hne
      | cons line lines =>
        rw [hsplit, List.forall_mem_cons] at hlines
        refine ⟨by simp, List.forall_mem_cons.mpr ⟨?_, hlines.2⟩⟩
        rw [List.mem_cons]
        rintro (hc | hmem)
        · exact hn hc.symm
        · exact hlines.1 hmem

/-! ### Programs in canonical form -/

theorem mapM_parseLineTemplate_printLine {lines : List JString} {lineTemplates : List LineTemplate}
    (hparse : lines.mapM parseLineTemplate = .ok lineTemplates)
    (hlines : ∀ line ∈ lines, chr '\n' ∉ line) :
    (lineTemplates.map printLine).mapM parseLineTemplate = .ok lineTemplates
      ∧ ∀ line ∈ lineTemplates.map printLine, chr '\n' ∉ line := by
  induction lines generalizing lineTemplates with
  | nil =>
    obtain rfl : [] = lineTemplates := Except.ok.inj hparse
    exact ⟨rfl, nofun⟩
  | cons line lines ih =>
    obtain ⟨hline, hlines⟩ := List.forall_mem_cons.mp hlines
    obtain ⟨lineTemplate, hhead⟩ := parseLineTemplate_ok line
    obtain ⟨rest, htail⟩ := mapM_parseLineTemplate_ok lines
    rw [List.mapM_cons, hhead, htail] at hparse
    obtain rfl : lineTemplate :: rest = lineTemplates := Except.ok.inj hparse
    obtain ⟨hrest, hnewline⟩ := ih htail hlines
    constructor
    · rw [List.map_cons, List.mapM_cons, parseLineTemplate_printLine hhead, hrest]
      rfl
    · rw [List.map_cons]
      exact List.forall_mem_cons.mpr ⟨newline_notMem_printLine hhead hline, hnewline⟩

/-- Every source is parsed as its canonical form is. -/
theorem parseProgramTemplate_canonicalSource (programTemplateStr : JString) :
    parseProgramTemplate (canonicalSource programTemplateStr)
      = parseProgramTemplate programTemplateStr := by
  obtain ⟨hne, hnewline⟩ := splitLines_spec programTemplateStr
  obtain ⟨lineTemplates, hlines⟩ := mapM_parseLineTemplate_ok (splitLines programTemplateStr)
  have hparse : parseProgramTemplate programTemplateStr = .ok ⟨lineTemplates⟩ := by
    rw [parseProgramTemplate, splitByNewline_eq, hlines]
    rfl
  have hcanonical : canonicalSource programTemplateStr = printProgram ⟨lineTemplates⟩ := by
    rw [canonicalSource, hparse]
  obtain ⟨hprinted, hnewline'⟩ := mapM_parseLineTemplate_printLine hlines hnewline
  -- there is a line at least
  have hne' : lineTemplates.map printLine ≠ [] := by
    obtain ⟨line, lines, hsplit⟩ := List.exists_cons_of_ne_nil hne
    rw [hsplit] at hlines
    rintro hnil
    rw [List.map_eq_nil_iff.mp hnil, List.mapM_cons] at hlines
    obtain ⟨lineTemplate, hhead⟩ := parseLineTemplate_ok line
    obtain ⟨rest, htail⟩ := mapM_parseLineTemplate_ok lines
    rw [hhead, htail] at hlines
    cases hlines
  rw [hcanonical, hparse, parseProgramTemplate, splitByNewline_eq, printProgram,
    splitLines_intercalate hne' hnewline', hprinted]
  rfl

/-- Two sources have the same canonical form exactly if they have the same template. -/
theorem canonicalSource_eq_iff (programTemplateStr programTemplateStr' : JString) :
    canonicalSource programTemplateStr = canonicalSource programTemplateStr'
      ↔ parseProgramTemplate programTemplateStr = parseProgramTemplate programTemplateStr' := by
  constructor
  · intro h
    rw [← parseProgramTemplate_canonicalSource programTemplateStr, h,
      parseProgramTemplate_canonicalSource]
  · intro h
    obtain ⟨programTemplate, hparse⟩ := parseProgramTemplate_ok programTemplateStr
    have hparse' := h.symm.trans hparse
    unfold canonicalSource
    rw [hparse, hparse']

/-- **The canonical form is a normal form of sources.**  It is parsed as the source is, and it is
that of exactly the sources with the same template. -/
theorem canonicalSource_spec (programTemplateStr : JString) :
    parseProgramTemplate (canonicalSource programTemplateStr)
        = parseProgramTemplate programTemplateStr
      ∧ ∀ programTemplateStr',
        canonicalSource programTemplateStr' = canonicalSource programTemplateStr
          ↔ parseProgramTemplate programTemplateStr' = parseProgramTemplate programTemplateStr :=
  ⟨parseProgramTemplate_canonicalSource _, fun _ => canonicalSource_eq_iff _ _⟩

/-- Spaces and line ends. -/
example : canonicalSource (jstr "x;%hidden \n\ny;  %a") = jstr "x; %hidden\r\n\r\ny; %a" := by
  decide +kernel

/-! ### Workspaces -/

/-- The workspace with other sources. -/
def Environment.withSources (env : Environment)
    (readWholeFile : JString → Except JavaException JString) : Environment :=
  { env with readWholeFile := readWholeFile }

section

variable {env : Environment} {readWholeFile : JString → Except JavaException JString}

/-- The sources that can be read have the same canonical forms. -/
def SameCanonicalSources (readWholeFile readWholeFile' : JString → Except JavaException JString) :
    Prop :=
  ∀ path, (readWholeFile path).map canonicalSource = (readWholeFile' path).map canonicalSource

theorem loadProgramTemplate_withSources
    (h : SameCanonicalSources env.readWholeFile readWholeFile) (codeTemplatePath : JString) :
    loadProgramTemplate (env.withSources readWholeFile) codeTemplatePath
      = loadProgramTemplate env codeTemplatePath := by
  have hpath := h codeTemplatePath
  show (readWholeFile codeTemplatePath >>= parseProgramTemplate)
    = env.readWholeFile codeTemplatePath >>= parseProgramTemplate
  cases hread : env.readWholeFile codeTemplatePath with
  | error e =>
    cases hread' : readWholeFile codeTemplatePath with
    | error e' =>
      rw [hread, hread'] at hpath
      cases hpath
      rfl
    | ok programTemplateStr =>
      rw [hread, hread'] at hpath
      cases hpath
  | ok programTemplateStr =>
    cases hread' : readWholeFile codeTemplatePath with
    | error e =>
      rw [hread, hread'] at hpath
      cases hpath
    | ok programTemplateStr' =>
      rw [hread, hread'] at hpath
      exact ((canonicalSource_eq_iff _ _).mp (Except.ok.inj hpath)).symm

theorem loadProgramTemplates_withSources
    (h : SameCanonicalSources env.readWholeFile readWholeFile) :
    loadProgramTemplates (env.withSources readWholeFile) = loadProgramTemplates env := by
  have hfrom : ∀ (n i : ℕ) (programTemplates : JMap ProgramId ProgramTemplate),
      loadProgramTemplatesFrom (env.withSources readWholeFile) i n programTemplates
        = loadProgramTemplatesFrom env i n programTemplates := by
    intro n
    induction n with
    | zero => exact fun _ _ => rfl
    | succ n ih =>
      intro i programTemplates
      unfold loadProgramTemplatesFrom
      dsimp only
      rw [loadProgramTemplate_withSources h]
      cases loadProgramTemplate env (format02d (ProgramId.fromIndex i).id ++ jstr ".cpp") with
      | error e => cases e <;> rfl
      | ok programTemplate => exact ih _ _
  exact hfrom _ _ _

/-- The tasks do the same, whoever starts them. -/
theorem runSupplier_withSources (h : SameCanonicalSources env.readWholeFile readWholeFile)
    (supplier : Supplier) :
    runSupplier (env.withSources readWholeFile) supplier = runSupplier env supplier := by
  cases supplier with
  | loadProgramTemplates =>
    exact congrArg Effectful.ofExcept (loadProgramTemplates_withSources h)
  | _ => rfl

/-- **The exams depend on the canonical forms of the sources only**, whichever way they are
generated: the white space around directives and the ends of lines make no difference. -/
theorem generate_withSources (h : SameCanonicalSources env.readWholeFile readWholeFile) :
    generateAllExamVariants (env.withSources readWholeFile) = generateAllExamVariants env
      ∧ projectTask (env.withSources readWholeFile) = projectTask env := by
  constructor
  · unfold generateAllExamVariants
    rw [loadProgramTemplates_withSources h]
    rfl
  · have hfinish : finish (env.withSources readWholeFile) = finish env := by
      funext supplier s
      unfold finish
      rw [runSupplier_withSources h]
    unfold projectTask
    rw [hfinish]

end

/-- The sources of a workspace with one program. -/
def oneSource (programTemplateStr path : JString) : Except JavaException JString :=
  if path = jstr "01.cpp" then .ok programTemplateStr else .error .ioException

theorem sameCanonicalSources_oneSource {programTemplateStr programTemplateStr' : JString}
    (h : canonicalSource programTemplateStr = canonicalSource programTemplateStr') :
    SameCanonicalSources (oneSource programTemplateStr) (oneSource programTemplateStr') := by
  intro path
  unfold oneSource
  split_ifs
  · exact congrArg Except.ok h
  · rfl

/-- A source with other spaces and other line ends. -/
theorem generate_withSources_example :
    generateAllExamVariants ((oneProgramEnvironment 0).withSources
        (oneSource (jstr "x;%hidden \ny;  %a")))
      = generateAllExamVariants ((oneProgramEnvironment 0).withSources
        (oneSource (jstr "x; %hidden\r\ny;\t%a"))) := by
  have hsame : SameCanonicalSources (oneSource (jstr "x; %hidden\r\ny;\t%a"))
      (oneSource (jstr "x;%hidden \ny;  %a")) :=
    sameCanonicalSources_oneSource (by decide +kernel)
  have hgenerate := @generate_withSources ((oneProgramEnvironment 0).withSources
    (oneSource (jstr "x; %hidden\r\ny;\t%a"))) _ hsame
  exact hgenerate.1

end ExamGeneratorNg
