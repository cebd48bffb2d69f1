import ExamGeneratorNg.GccCompiler

/-!
# Compilations do not disturb each other

`compile_isolated`: whatever other compilations and other programs do meanwhile, a compilation
returns what it returns alone with the same names for its files, and running its program gives what
its own source gives.
`compile_returns`: no compilation waits for another.

The invariant is that no two compilations have a file in common, and that the files of each are as
they would be if it were alone (`CompilationsInv`).
-/

namespace ExamGeneratorNg.Gcc

open Transition

variable {Content : Type} {toolchain : Toolchain Content} {names : List JString}
  {files files' : TempFiles Content} {sourceCode : List JString} {stage stage' : Stage Content}

/-! ### The steps of a compilation -/

/-- A source does not have the name of a program. -/
theorem sourceCodeFileName_ne (random uuid : JString) :
    sourceCodeFileName random ≠ programFileName uuid := by
  intro h
  have hlast := congrArg List.getLast? h
  unfold sourceCodeFileName programFileName at hlast
  rw [List.getLast?_append_of_ne_nil _ (by decide), List.getLast?_append_of_ne_nil _ (by decide)]
    at hlast
  exact absurd hlast (by decide)

variable (toolchain names files sourceCode) in
/-- The statements of a compilation, by what they do. -/
inductive Next : Stage Content → TempFiles Content → Stage Content → Prop
  | createTempFile (random : JString) (habsent : files.lookup (sourceCodeFileName random) = none) :
    Next .called (files.insert (sourceCodeFileName random) (toolchain.encode []))
      (.created (sourceCodeFileName random))
  | write (sourceCodeFile : JString) :
    Next (.created sourceCodeFile) (files.insert sourceCodeFile (toolchain.encode sourceCode))
      (.written sourceCodeFile)
  | refuseCreate : Next .called files (.refused none)
  | refuseWrite (sourceCodeFile : JString) :
    Next (.created sourceCodeFile) files (.refused (some sourceCodeFile))
  | randomUUID (sourceCodeFile uuid : JString) (hunused : programFileName uuid ∉ names) :
    Next (.written sourceCodeFile) files (.started sourceCodeFile (programFileName uuid))
  | readSource (sourceCodeFile programPath : JString) (run : GccRun Content)
    (hgcc : toolchain.gcc programPath sourceCodeFile (files.lookup sourceCodeFile) = .ok run) :
    Next (.started sourceCodeFile programPath) files (.compiling sourceCodeFile programPath run)
  | gccThrows (sourceCodeFile programPath : JString) (e : JavaException)
    (hgcc : toolchain.gcc programPath sourceCodeFile (files.lookup sourceCodeFile) = .error e) :
    Next (.started sourceCodeFile programPath) files
      (.returned sourceCodeFile programPath (.error (.runtimeException e)))
  | exit (sourceCodeFile programPath : JString) (run : GccRun Content) (files' : TempFiles Content)
    (hprogram : run.program.isSome → files'.lookup programPath = run.program)
    (hothers : ∀ name ≠ programPath, files'.lookup name = files.lookup name) :
    Next (.compiling sourceCodeFile programPath run) files'
      (.returned sourceCodeFile programPath (.ok (gccOutput programPath run)))
  | execute (sourceCodeFile programPath : JString) (output : GccOutput) (cppProgram : CppProgram)
    (hprogram : output.program = some cppProgram) :
    Next (.returned sourceCodeFile programPath (.ok output)) files
      (.executed sourceCodeFile programPath output (cppProgram.execute toolchain files))

theorem next_cases {statement : Statement}
    (h : next toolchain names files sourceCode stage statement = some (files', stage')) :
    Next toolchain names files sourceCode stage files' stage' := by
  unfold next at h
  split at h
  · dsimp only at h
    split_ifs at h with habsent
    cases h
    exact .createTempFile _ habsent
  · cases h
    exact .write _
  · cases h
    exact .refuseCreate
  · cases h
    exact .refuseWrite _
  · dsimp only at h
    split_ifs at h with hunused
    cases h
    exact .randomUUID _ _ hunused.1
  · split at h
    · next run hgcc =>
      cases h
      exact .readSource _ _ run hgcc
    · next e hgcc =>
      cases h
      exact .gccThrows _ _ e hgcc
  · next sourceCodeFile programPath run =>
    cases h
    cases hprogram : run.program with
    | none =>
      refine .exit _ _ run _ (fun hsome => ?_) fun _ _ => rfl
      rw [hprogram] at hsome
      cases hsome
    | some program =>
      refine .exit _ _ run _ (fun _ => ?_) fun name hname => ?_
      · rw [AList.lookup_insert, hprogram]
      · rw [AList.lookup_insert_ne hname]
  · obtain ⟨cppProgram, hprogram, heq⟩ := Option.bind_eq_some_iff.mp h
    cases heq
    exact .execute _ _ _ _ hprogram
  · cases h

/-! ### What is known of a compilation -/

variable (toolchain files sourceCode) in
/-- The result of `compile` is the one for the source, and the program is there. -/
def IsResult (sourceCodeFile programPath : JString) : Except JavaException GccOutput → Prop
  | .ok output => ∃ run,
    toolchain.gcc programPath sourceCodeFile (some (toolchain.encode sourceCode)) = .ok run
    ∧ output = gccOutput programPath run
    ∧ (run.output.status = 0 → files.lookup programPath = run.program)
  | .error e => ∃ cause,
    toolchain.gcc programPath sourceCodeFile (some (toolchain.encode sourceCode)) = .error cause
    ∧ e = .runtimeException cause

variable (toolchain files sourceCode) in
/-- What a compilation has done is right. -/
def Stage.Right : Stage Content → Prop
  | written sourceCodeFile => files.lookup sourceCodeFile = some (toolchain.encode sourceCode)
  | started sourceCodeFile _ => files.lookup sourceCodeFile = some (toolchain.encode sourceCode)
  | compiling sourceCodeFile programPath run =>
    toolchain.gcc programPath sourceCodeFile (some (toolchain.encode sourceCode)) = .ok run
  | returned sourceCodeFile programPath result =>
    IsResult toolchain files sourceCode sourceCodeFile programPath result
  | executed sourceCodeFile programPath output result =>
    IsResult toolchain files sourceCode sourceCodeFile programPath (.ok output)
    ∧ ∃ cppProgram, output.program = some cppProgram
      ∧ result = cppProgram.execute toolchain files
  | _ => True

/-- What is known of a compilation at any time. -/
structure Stage.Inv (toolchain : Toolchain Content) (files : TempFiles Content)
    (sourceCode : List JString) (stage : Stage Content) : Prop where
  source : ∀ name, stage.sourceCodeFile = some name →
    (∃ random, name = sourceCodeFileName random) ∧ (files.lookup name).isSome
  program : ∀ name, stage.programPath = some name → ∃ uuid, name = programFileName uuid
  right : stage.Right toolchain files sourceCode

theorem IsResult.congr {sourceCodeFile programPath : JString}
    {result : Except JavaException GccOutput}
    (h : IsResult toolchain files sourceCode sourceCodeFile programPath result)
    (hfiles : files'.lookup programPath = files.lookup programPath) :
    IsResult toolchain files' sourceCode sourceCodeFile programPath result := by
  cases result with
  | error e => exact h
  | ok output =>
    obtain ⟨run, hgcc, houtput, hprogram⟩ := h
    exact ⟨run, hgcc, houtput, fun hstatus => hfiles.trans (hprogram hstatus)⟩

/-- The program of a `GccOutput` is in its own file. -/
theorem program_gccOutput {programPath : JString} {run : GccRun Content} {cppProgram : CppProgram}
    (h : (gccOutput programPath run).program = some cppProgram) :
    run.output.status = 0 ∧ cppProgram = ⟨programPath⟩ := by
  unfold gccOutput at h
  dsimp only at h
  split_ifs at h with hstatus
  exact ⟨hstatus, (Option.some.inj h).symm⟩

theorem mem_names {name : JString} :
    name ∈ stage.names ↔ stage.sourceCodeFile = some name ∨ stage.programPath = some name := by
  unfold Stage.names
  rw [List.mem_append, Option.mem_toList, Option.mem_toList]

/-- Only the files of a compilation matter to it. -/
theorem Stage.Inv.congr (h : stage.Inv toolchain files sourceCode)
    (hfiles : ∀ name ∈ stage.names, files'.lookup name = files.lookup name) :
    stage.Inv toolchain files' sourceCode := by
  refine ⟨fun name hname => ?_, h.program, ?_⟩
  · rw [hfiles name (mem_names.mpr (.inl hname))]
    exact h.source name hname
  · have hright := h.right
    cases stage with
    | written sourceCodeFile =>
      exact (hfiles _ (mem_names.mpr (.inl rfl))).trans hright
    | started sourceCodeFile programPath =>
      exact (hfiles _ (mem_names.mpr (.inl rfl))).trans hright
    | returned sourceCodeFile programPath result =>
      exact IsResult.congr hright (hfiles _ (mem_names.mpr (.inr rfl)))
    | executed sourceCodeFile programPath output result =>
      obtain ⟨hresult, cppProgram, hprogram, rfl⟩ := hright
      have hsame := hfiles programPath (mem_names.mpr (.inr rfl))
      refine ⟨hresult.congr hsame, cppProgram, hprogram, ?_⟩
      obtain ⟨run, -, rfl, -⟩ := hresult
      obtain ⟨-, rfl⟩ := program_gccOutput hprogram
      unfold CppProgram.execute
      rw [hsame]
    | _ => exact hright

/-- A file that a compilation takes is new, and the files of others are left alone. -/
structure Frame (names : List JString) (files files' : TempFiles Content)
    (stage stage' : Stage Content) : Prop where
  fresh : ∀ name ∈ stage'.names, name ∈ stage.names ∨ name ∉ names
  others : ∀ name, name ∉ stage'.names → files'.lookup name = files.lookup name

theorem Frame.of_names_eq (h : stage'.names = stage.names)
    (hothers : ∀ name, name ∉ stage'.names → files'.lookup name = files.lookup name) :
    Frame names files files' stage stage' :=
  ⟨fun _ hname => .inl (h ▸ hname), hothers⟩

theorem Next.frame (h : Next toolchain names files sourceCode stage files' stage')
    (hnames : ∀ name ∈ names, (files.lookup name).isSome ∨ ∃ uuid, name = programFileName uuid) :
    Frame names files files' stage stage' := by
  cases h with
  | createTempFile random habsent =>
    refine ⟨fun name hname => .inr fun hmem => ?_, fun name hname => ?_⟩
    · obtain rfl := List.mem_singleton.mp hname
      rcases hnames _ hmem with hsome | ⟨uuid, heq⟩
      · rw [habsent] at hsome
        cases hsome
      · exact sourceCodeFileName_ne random uuid heq
    · exact AList.lookup_insert_ne fun heq => hname (mem_names.mpr (.inl (congrArg some heq.symm)))
  | write sourceCodeFile =>
    exact .of_names_eq rfl fun name hname =>
      AList.lookup_insert_ne fun heq => hname (mem_names.mpr (.inl (congrArg some heq.symm)))
  | refuseCreate => exact .of_names_eq rfl fun _ _ => rfl
  | refuseWrite sourceCodeFile => exact .of_names_eq rfl fun _ _ => rfl
  | randomUUID sourceCodeFile uuid hunused =>
    refine ⟨fun name hname => ?_, fun _ _ => rfl⟩
    rcases mem_names.mp hname with hsource | hprogram
    · exact .inl (mem_names.mpr (.inl hsource))
    · obtain rfl := Option.some.inj hprogram
      exact .inr hunused
  | readSource sourceCodeFile programPath run hgcc => exact .of_names_eq rfl fun _ _ => rfl
  | gccThrows sourceCodeFile programPath e hgcc => exact .of_names_eq rfl fun _ _ => rfl
  | exit sourceCodeFile programPath run files' hprogram hothers =>
    exact .of_names_eq rfl fun name hname =>
      hothers name fun heq => hname (mem_names.mpr (.inr (congrArg some heq.symm)))
  | execute sourceCodeFile programPath output cppProgram hprogram =>
    exact .of_names_eq rfl fun _ _ => rfl

theorem Next.inv (h : Next toolchain names files sourceCode stage files' stage')
    (hinv : stage.Inv toolchain files sourceCode) : stage'.Inv toolchain files' sourceCode := by
  cases h with
  | createTempFile random habsent =>
    refine ⟨fun name hname => ?_, nofun, trivial⟩
    obtain rfl := Option.some.inj hname
    rw [AList.lookup_insert]
    exact ⟨⟨random, rfl⟩, rfl⟩
  | write sourceCodeFile =>
    refine ⟨fun name hname => ?_, nofun, AList.lookup_insert _⟩
    obtain rfl := Option.some.inj hname
    rw [AList.lookup_insert]
    exact ⟨(hinv.source _ rfl).1, rfl⟩
  | refuseCreate => exact ⟨nofun, nofun, trivial⟩
  | refuseWrite sourceCodeFile => exact ⟨hinv.source, nofun, trivial⟩
  | randomUUID sourceCodeFile uuid hunused =>
    exact ⟨hinv.source, fun name hname => ⟨uuid, (Option.some.inj hname).symm⟩, hinv.right⟩
  | readSource sourceCodeFile programPath run hgcc =>
    have hsource : files.lookup sourceCodeFile = some (toolchain.encode sourceCode) := hinv.right
    refine ⟨hinv.source, hinv.program, ?_⟩
    rwa [hsource] at hgcc
  | gccThrows sourceCodeFile programPath e hgcc =>
    have hsource : files.lookup sourceCodeFile = some (toolchain.encode sourceCode) := hinv.right
    refine ⟨hinv.source, hinv.program, e, ?_, rfl⟩
    rwa [hsource] at hgcc
  | exit sourceCodeFile programPath run files' hprogram hothers =>
    obtain ⟨⟨random, hrandom⟩, hsome⟩ := hinv.source _ rfl
    obtain ⟨uuid, huuid⟩ := hinv.program _ rfl
    refine ⟨fun name hname => ?_, hinv.program, run, hinv.right, rfl, fun hstatus =>
      hprogram (run.isSome_program hstatus)⟩
    obtain rfl := Option.some.inj hname
    refine ⟨⟨random, hrandom⟩, ?_⟩
    have hne : sourceCodeFile ≠ programPath := by
      rw [hrandom, huuid]
      exact sourceCodeFileName_ne random uuid
    rw [hothers _ hne]
    exact hsome
  | execute sourceCodeFile programPath output cppProgram hprogram =>
    exact ⟨hinv.source, hinv.program, hinv.right, cppProgram, hprogram, rfl⟩

/-! ### All compilations -/

variable {s s' : Compilations Content}

theorem mem_names_of_getElem? {index : ℕ} {compilation : Compilation Content} {name : JString}
    (hindex : s.compilations[index]? = some compilation) (hname : name ∈ compilation.stage.names) :
    name ∈ s.names :=
  List.mem_flatMap.mpr ⟨compilation, List.mem_of_getElem? hindex, hname⟩

/-- What is known of all compilations at any time. -/
structure CompilationsInv (toolchain : Toolchain Content) (s : Compilations Content) : Prop where
  disjoint : ∀ (i j : ℕ) (compilation compilation' : Compilation Content), i ≠ j →
    s.compilations[i]? = some compilation → s.compilations[j]? = some compilation' →
    ∀ name ∈ compilation.stage.names, name ∉ compilation'.stage.names
  inv : ∀ compilation ∈ s.compilations,
    compilation.stage.Inv toolchain s.files compilation.sourceCode

/-- A file of a compilation is there, or is a program, which `g++` has not written yet. -/
theorem CompilationsInv.isSome_or_program (h : CompilationsInv toolchain s) :
    ∀ name ∈ s.names, (s.files.lookup name).isSome ∨ ∃ uuid, name = programFileName uuid := by
  intro name hname
  obtain ⟨compilation, hmem, hname⟩ := List.mem_flatMap.mp hname
  have hinv := h.inv compilation hmem
  rcases mem_names.mp hname with hsource | hprogram
  · exact .inl (hinv.source name hsource).2
  · exact .inr (hinv.program name hprogram)

theorem CompilationsInv.compile (h : CompilationsInv toolchain s) (sourceCode : List JString) :
    CompilationsInv toolchain
      { s with compilations := s.compilations ++ [⟨sourceCode, .called⟩] } where
  disjoint i j compilation compilation' hne hi hj name hname hname' := by
    -- the new compilation has no files yet
    have hold : ∀ {k : ℕ} {c : Compilation Content},
        (s.compilations ++ [⟨sourceCode, .called⟩])[k]? = some c →
        name ∈ c.stage.names → s.compilations[k]? = some c := by
      intro k c hk hmem
      by_cases hlt : k < s.compilations.length
      · rwa [List.getElem?_append_left hlt] at hk
      · rw [List.getElem?_append_right (by omega)] at hk
        obtain rfl := List.mem_singleton.mp (List.mem_of_getElem? hk)
        cases hmem
    exact h.disjoint i j _ _ hne (hold hi hname) (hold hj hname') name hname hname'
  inv compilation hmem := by
    rcases List.mem_append.mp hmem with hmem | hmem
    · exact h.inv compilation hmem
    · obtain rfl := List.mem_singleton.mp hmem
      exact ⟨nofun, nofun, trivial⟩

/-- What another program does to a file of its own. -/
theorem CompilationsInv.other (h : CompilationsInv toolchain s) {name : JString}
    (hname : name ∉ s.names) (hothers : ∀ name' ≠ name, files.lookup name' = s.files.lookup name') :
    CompilationsInv toolchain ⟨s.compilations, files⟩ where
  disjoint := h.disjoint
  inv compilation hmem := by
    refine (h.inv compilation hmem).congr fun name' hname' => hothers name' ?_
    rintro rfl
    exact hname (List.mem_flatMap.mpr ⟨compilation, hmem, hname'⟩)

/-- A compilation takes a step; the files of the others are not among its own. -/
theorem CompilationsInv.step (h : CompilationsInv toolchain s) {index : ℕ}
    {compilation : Compilation Content} (hindex : s.compilations[index]? = some compilation)
    (hnext : Next toolchain s.names s.files compilation.sourceCode compilation.stage files stage) :
    CompilationsInv toolchain
      ⟨s.compilations.set index ⟨compilation.sourceCode, stage⟩, files⟩ := by
  obtain ⟨hfresh, hothers⟩ := hnext.frame h.isSome_or_program
  have hlt := (List.getElem?_eq_some_iff.mp hindex).1
  -- the names of the compilation are not those of another one
  have hapart : ∀ j c, j ≠ index → s.compilations[j]? = some c →
      ∀ name ∈ stage.names, name ∉ c.stage.names := by
    intro j c hne hj name hname hname'
    rcases hfresh name hname with hold | hnew
    · exact h.disjoint index j _ c hne.symm hindex hj name hold hname'
    · exact hnew (mem_names_of_getElem? hj hname')
  refine ⟨fun i j c c' hne hi hj name hname hname' => ?_, fun c hc => ?_⟩
  · dsimp only at hi hj
    rw [List.getElem?_set] at hi hj
    by_cases hii : index = i
    · rw [if_pos hii, if_pos (hii ▸ hlt)] at hi
      rw [if_neg fun heq => hne (hii.symm.trans heq)] at hj
      cases hi
      exact hapart j c' (fun heq => hne (hii.symm.trans heq.symm)) hj name hname hname'
    · rw [if_neg hii] at hi
      by_cases hjj : index = j
      · rw [if_pos hjj, if_pos (hjj ▸ hlt)] at hj
        cases hj
        exact hapart i c (Ne.symm hii) hi name hname' hname
      · rw [if_neg hjj] at hj
        exact h.disjoint i j c c' hne hi hj name hname hname'
  · obtain ⟨j, hj⟩ := List.getElem?_of_mem hc
    dsimp only at hj
    rw [List.getElem?_set] at hj
    by_cases hjj : index = j
    · rw [if_pos hjj, if_pos (hjj ▸ hlt)] at hj
      cases hj
      exact hnext.inv (h.inv compilation (List.mem_of_getElem? hindex))
    · rw [if_neg hjj] at hj
      refine (h.inv c (List.mem_of_getElem? hj)).congr fun name hname => hothers name ?_
      exact fun hmem => hapart j c (Ne.symm hjj) hj name hmem hname

theorem compilationsInv_start (files : TempFiles Content) :
    CompilationsInv toolchain ⟨[], files⟩ where
  disjoint _ _ _ _ _ hi := nomatch hi
  inv := nofun

theorem next_statement_ok {index : ℕ} {statement : Statement}
    (h : (gccCompiler toolchain).next (.statement index statement) s = some s') :
    ∃ compilation files stage, s.compilations[index]? = some compilation
      ∧ next toolchain s.names s.files compilation.sourceCode compilation.stage statement
        = some (files, stage)
      ∧ s' = ⟨s.compilations.set index ⟨compilation.sourceCode, stage⟩, files⟩ := by
  obtain ⟨compilation, hindex, hrest⟩ := Option.bind_eq_some_iff.mp h
  obtain ⟨⟨files, stage⟩, hnext, heq⟩ := Option.bind_eq_some_iff.mp hrest
  exact ⟨compilation, files, stage, hindex, hnext, (Option.some.inj heq).symm⟩

/-- Another program leaves the compilations alone. -/
theorem next_other_compilations {name : JString} {content : Option Content}
    (h : (gccCompiler toolchain).next (.other name content) s = some s') :
    s'.compilations = s.compilations := by
  change (if name ∈ s.names then none else _) = some s' at h
  split_ifs at h with hname
  cases content <;> cases h <;> rfl

/-- Whatever happens keeps the invariant. -/
theorem CompilationsInv.next (h : CompilationsInv toolchain s) {action : Action Content}
    (hnext : (gccCompiler toolchain).next action s = some s') : CompilationsInv toolchain s' := by
  cases action with
  | compile sourceCode =>
    obtain rfl := Option.some.inj hnext
    exact h.compile sourceCode
  | statement index statement =>
    obtain ⟨compilation, files', stage, hindex, hstep, rfl⟩ := next_statement_ok hnext
    exact h.step hindex (next_cases hstep)
  | other name content =>
    change (if name ∈ s.names then none else _) = some s' at hnext
    split_ifs at hnext with hname
    cases content with
    | none =>
      obtain rfl := Option.some.inj hnext
      exact h.other hname fun name' hne => AList.lookup_erase_ne hne
    | some content =>
      obtain rfl := Option.some.inj hnext
      exact h.other hname fun name' hne => AList.lookup_insert_ne hne

theorem compilationsInv_of_leads
    (hleads : (gccCompiler toolchain).Leads ⟨[], files⟩ s) : CompilationsInv toolchain s :=
  hleads.invariant (fun _ _ _ h hnext => h.next hnext) (compilationsInv_start files)

theorem IsResult.map_eq {sourceCodeFile programPath : JString}
    {result : Except JavaException GccOutput}
    (h : IsResult toolchain files sourceCode sourceCodeFile programPath result) :
    result.map (GccOutput.compilerOutput toolchain files)
      = toolchain.compile sourceCodeFile programPath sourceCode := by
  unfold Toolchain.compile
  cases result with
  | error e =>
    obtain ⟨cause, hgcc, rfl⟩ := h
    rw [hgcc]
    rfl
  | ok output =>
    obtain ⟨run, hgcc, rfl, hprogram⟩ := h
    rw [hgcc]
    refine congrArg Except.ok ?_
    unfold GccOutput.compilerOutput gccOutput CppProgram.execute
    by_cases hstatus : run.output.status = 0
    · simp only [hstatus, if_true, Option.map_some, hprogram hstatus]
    · simp only [hstatus, if_false, Option.map_none]

/-- **Compilations do not disturb each other**: at any time of any run, in which any number of
compilations and other programs use the same directory, a compilation that has returned has returned
what it returns alone with the same names for its files, and a program that has been run has given
what its own source gives. -/
theorem compile_isolated (hleads : (gccCompiler toolchain).Leads ⟨[], files⟩ s)
    {compilation : Compilation Content} (hmem : compilation ∈ s.compilations) :
    (∀ sourceCodeFile programPath result,
      compilation.stage = .returned sourceCodeFile programPath result →
      result.map (GccOutput.compilerOutput toolchain s.files)
        = toolchain.compile sourceCodeFile programPath compilation.sourceCode)
    ∧ ∀ sourceCodeFile programPath output result,
      compilation.stage = .executed sourceCodeFile programPath output result →
      ∃ program, toolchain.compile sourceCodeFile programPath compilation.sourceCode
          = .ok ⟨output.diagnostics, some program⟩
        ∧ program.execute = result := by
  have hright := ((compilationsInv_of_leads hleads).inv compilation hmem).right
  constructor
  · intro sourceCodeFile programPath result hstage
    rw [hstage] at hright
    exact IsResult.map_eq hright
  · intro sourceCodeFile programPath output result hstage
    rw [hstage] at hright
    obtain ⟨hresult, cppProgram, hprogram, rfl⟩ := hright
    refine ⟨⟨cppProgram.execute toolchain s.files⟩, ?_, rfl⟩
    refine hresult.map_eq.symm.trans (congrArg Except.ok ?_)
    unfold GccOutput.compilerOutput
    rw [hprogram]
    rfl

/-- A `g++` that names the source in its only message, for programs that print their own source. -/
def exampleToolchain : Toolchain (List JString) where
  encode := id
  gcc _ sourceCodeFile source :=
    .ok ⟨⟨[], [sourceCodeFile], 0⟩, some (source.getD []), fun _ => rfl⟩
  execute _ program := .ok ⟨program.getD [], [], 0⟩

/-- Two compilations that take turns. -/
def exampleActions : List (Action (List JString)) :=
  [.compile [jstr "a"], .compile [jstr "b"],
    .statement 0 (.createTempFile (jstr "1")), .statement 1 (.createTempFile (jstr "2")),
    .statement 0 .write, .statement 1 .write,
    .statement 0 (.randomUUID (jstr "3")), .statement 1 (.randomUUID (jstr "4")),
    .statement 1 .readSource, .statement 0 .readSource,
    .statement 0 .exit, .statement 1 .exit, .statement 1 .execute]

/-- The second of them. -/
theorem compile_isolated_example :
    ∃ program, exampleToolchain.compile (jstr "sourceCode2.cpp") (jstr "4.exe") [jstr "b"]
        = .ok ⟨[jstr "sourceCode2.cpp"], some program⟩
      ∧ program.execute = .ok ⟨[jstr "b"], [], 0⟩ := by
  have hrun : ∃ s, (gccCompiler exampleToolchain).run exampleActions ⟨[], ∅⟩ = some s
      ∧ s.compilations[1]? = some ⟨[jstr "b"], .executed (jstr "sourceCode2.cpp") (jstr "4.exe")
          ⟨[jstr "sourceCode2.cpp"], some ⟨jstr "4.exe"⟩⟩ (.ok ⟨[jstr "b"], [], 0⟩)⟩ :=
    ⟨_, rfl, rfl⟩
  obtain ⟨s, hrun, hindex⟩ := hrun
  exact (compile_isolated ⟨_, hrun⟩ (List.mem_of_getElem? hindex)).2 _ _ _ _ rfl

/-! ### No compilation waits for another -/

/-- How many statements a compilation has before it at most, until `compile` returns. -/
def Stage.remaining : Stage Content → ℕ
  | called => 5
  | created _ => 4
  | written _ => 3
  | started _ _ => 2
  | compiling _ _ _ => 1
  | _ => 0

/-- `compile` has just returned. -/
def Stage.Returned (stage : Stage Content) : Prop :=
  ∃ sourceCodeFile programPath result, stage = .returned sourceCodeFile programPath result

theorem exists_length_le (names : List JString) : ∃ n, ∀ name ∈ names, name.length ≤ n := by
  induction names with
  | nil => exact ⟨0, nofun⟩
  | cons name names ih =>
    obtain ⟨n, hle⟩ := ih
    refine ⟨max name.length n, List.forall_mem_cons.mpr ⟨Nat.le_max_left _ _, ?_⟩⟩
    exact fun name' hname' => (hle name' hname').trans (Nat.le_max_right _ _)

/-- There are names that nothing has. -/
theorem exists_unused (names : List JString) (files : TempFiles Content) :
    ∃ unused : JString, ∀ name : JString, unused.length ≤ name.length →
      name ∉ names ∧ files.lookup name = none := by
  obtain ⟨n, hle⟩ := exists_length_le (names ++ files.keys)
  refine ⟨List.replicate (n + 1) (chr '0'), fun name hlength => ?_⟩
  rw [List.length_replicate] at hlength
  have hnotMem : name ∉ names ++ files.keys := by
    intro hmem
    have hbound := hle name hmem
    omega
  rw [List.mem_append, not_or] at hnotMem
  exact ⟨hnotMem.1, AList.lookup_eq_none.mpr hnotMem.2⟩

theorem exists_next (h : stage.remaining ≠ 0) :
    ∃ statement files' stage',
      next toolchain names files sourceCode stage statement = some (files', stage')
      ∧ stage'.remaining < stage.remaining ∧ (stage'.remaining = 0 → stage'.Returned) := by
  obtain ⟨unused, hunused⟩ := exists_unused names files
  cases stage with
  | called =>
    have hlength : unused.length ≤ (sourceCodeFileName unused).length := by
      unfold sourceCodeFileName
      rw [List.length_append, List.length_append]
      omega
    have habsent := (hunused _ hlength).2
    refine ⟨.createTempFile unused, _, _, if_pos habsent, ?_, nofun⟩
    show 4 < 5
    omega
  | created sourceCodeFile =>
    refine ⟨.write, _, _, rfl, ?_, nofun⟩
    show 3 < 4
    omega
  | written sourceCodeFile =>
    have hlength : unused.length ≤ (programFileName unused).length := by
      unfold programFileName
      rw [List.length_append]
      omega
    refine ⟨.randomUUID unused, _, _, if_pos (hunused _ hlength), ?_, nofun⟩
    show 2 < 3
    omega
  | started sourceCodeFile programPath =>
    refine ⟨.readSource, ?_⟩
    unfold next
    dsimp only
    cases toolchain.gcc programPath sourceCodeFile (files.lookup sourceCodeFile) with
    | error e =>
      refine ⟨_, _, rfl, ?_, fun _ => ⟨_, _, _, rfl⟩⟩
      show 0 < 2
      omega
    | ok run =>
      refine ⟨_, _, rfl, ?_, nofun⟩
      show 1 < 2
      omega
  | compiling sourceCodeFile programPath run =>
    refine ⟨.exit, _, _, rfl, ?_, fun _ => ⟨_, _, _, rfl⟩⟩
    show 0 < 1
    omega
  | _ => exact absurd rfl h

theorem exists_next_statement {index : ℕ} {compilation : Compilation Content}
    (hindex : s.compilations[index]? = some compilation) (h : compilation.stage.remaining ≠ 0) :
    ∃ statement s' stage, (gccCompiler toolchain).next (.statement index statement) s = some s'
      ∧ s'.compilations[index]? = some ⟨compilation.sourceCode, stage⟩
      ∧ stage.remaining < compilation.stage.remaining ∧ (stage.remaining = 0 → stage.Returned) := by
  obtain ⟨statement, files', stage, hnext, hend⟩ := exists_next h
  refine ⟨statement, ⟨s.compilations.set index ⟨compilation.sourceCode, stage⟩, files'⟩, stage,
    ?_, ?_, hend⟩
  · show s.compilations[index]?.bind _ = _
    rw [hindex, Option.bind_some, hnext]
    rfl
  · have hlength := (List.getElem?_eq_some_iff.mp hindex).1
    show (s.compilations.set index _)[index]? = _
    rw [List.getElem?_set_self hlength]

/-- By induction on the statements that remain. -/
theorem exists_statements {n index : ℕ} {compilation : Compilation Content}
    (hindex : s.compilations[index]? = some compilation)
    (hend : compilation.stage.remaining = 0 → compilation.stage.Returned)
    (hle : compilation.stage.remaining ≤ n) :
    ∃ (statements : List Statement) (s' : Compilations Content) (stage : Stage Content),
      statements.length ≤ n
      ∧ (gccCompiler toolchain).run (statements.map (.statement index)) s = some s'
      ∧ s'.compilations[index]? = some ⟨compilation.sourceCode, stage⟩ ∧ stage.Returned := by
  induction n generalizing s compilation with
  | zero =>
    exact ⟨[], s, compilation.stage, le_rfl, rfl, hindex, hend (Nat.le_zero.mp hle)⟩
  | succ n ih =>
    by_cases hzero : compilation.stage.remaining = 0
    · exact ⟨[], s, compilation.stage, Nat.zero_le _, rfl, hindex, hend hzero⟩
    · obtain ⟨statement, s₁, stage, hnext, hindex₁, hlt, hend₁⟩ :=
        @exists_next_statement _ toolchain _ _ _ hindex hzero
      have hle₁ : stage.remaining ≤ n := by omega
      obtain ⟨statements, s', stage', hlength, hrun, hreturned⟩ := ih hindex₁ hend₁ hle₁
      refine ⟨statement :: statements, s', stage', Nat.succ_le_succ hlength, ?_, hreturned⟩
      exact System.run_cons_eq_some.mpr ⟨s₁, hnext, hrun⟩

theorem remaining_le (stage : Stage Content) : stage.remaining ≤ 5 := by
  unfold Stage.remaining
  cases stage <;> simp

/-- **No compilation waits for another**: from every state of every run, a compilation that has not
ended can return with at most five statements of its own, whatever the others have done, and then it
has returned what it returns alone with the same names for its files. -/
theorem compile_returns (hleads : (gccCompiler toolchain).Leads ⟨[], files⟩ s) {index : ℕ}
    {compilation : Compilation Content} (hindex : s.compilations[index]? = some compilation)
    (hremaining : compilation.stage.remaining ≠ 0) :
    ∃ (statements : List Statement) (s' : Compilations Content)
        (sourceCodeFile programPath : JString) (result : Except JavaException GccOutput),
      statements.length ≤ 5
      ∧ (gccCompiler toolchain).run (statements.map (.statement index)) s = some s'
      ∧ s'.compilations[index]?
        = some ⟨compilation.sourceCode, .returned sourceCodeFile programPath result⟩
      ∧ result.map (GccOutput.compilerOutput toolchain s'.files)
        = toolchain.compile sourceCodeFile programPath compilation.sourceCode := by
  obtain ⟨statements, s', stage, hlength, hrun, hindex', hreturned⟩ :=
    @exists_statements _ toolchain _ _ _ _ hindex (fun hzero => absurd hzero hremaining)
      (remaining_le _)
  obtain ⟨sourceCodeFile, programPath, result, rfl⟩ := hreturned
  refine ⟨statements, s', sourceCodeFile, programPath, result, hlength, hrun, hindex', ?_⟩
  have hinv := compilationsInv_of_leads (hleads.trans ⟨_, hrun⟩)
  exact (hinv.inv _ (List.mem_of_getElem? hindex')).right.map_eq

/-- The first of two compilations goes on when both have been called. -/
theorem compile_returns_example : ∃ statements : List Statement, statements.length ≤ 5
    ∧ ∃ s', (gccCompiler exampleToolchain).run (statements.map (.statement 0))
      ⟨[⟨[jstr "a"], .called⟩, ⟨[jstr "b"], .called⟩], ∅⟩ = some s' := by
  have hrun : (gccCompiler exampleToolchain).run (exampleActions.take 2) ⟨[], ∅⟩
      = some ⟨[⟨[jstr "a"], .called⟩, ⟨[jstr "b"], .called⟩], ∅⟩ := rfl
  have hindex : ([⟨[jstr "a"], .called⟩, ⟨[jstr "b"], .called⟩] :
      List (Compilation (List JString)))[0]? = some ⟨[jstr "a"], .called⟩ := rfl
  obtain ⟨statements, s', -, -, -, hlength, hrun', -⟩ :=
    compile_returns ⟨_, hrun⟩ hindex (by decide)
  exact ⟨statements, hlength, s', hrun'⟩

end ExamGeneratorNg.Gcc
