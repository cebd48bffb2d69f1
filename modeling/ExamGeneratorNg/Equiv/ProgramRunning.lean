import ExamGeneratorNg.ExamGeneration

/-!
# What compiling and running programs gives

`IsCompilerOutput` and `IsProcessOutput` say what the compiler and the programs of a workspace
answer, and `ExitsWithZero` that every program exits with status 0.  Both ways of generating exams
are compared with them.

`runsAgree_iff` compares the two ways of running programs: all at once, and each on its own.
-/

namespace ExamGeneratorNg

/-! ### `Collectors.toMap` -/

section

variable {K V₁ V₂ : Type} [DecidableEq K] {mapper : K → V₁ → Effectful (Option V₂)}

/-- What `collectToMap` puts into the map are the values of the mapper, none of which is `null`. -/
theorem lookup_of_collectToMap {entries : List (Entry K V₁)} (hnodup : entries.NodupKeys)
    {inputMap outputMap : JMap K V₂}
    (h : (collectToMap mapper entries inputMap).result = .ok outputMap) (k : K) :
    (∀ v, entries.dlookup k = some v →
      ∃ w, (mapper k v).result = .ok (some w) ∧ outputMap.lookup k = some w)
    ∧ (entries.dlookup k = none → outputMap.lookup k = inputMap.lookup k) := by
  induction entries generalizing inputMap with
  | nil =>
    have h : inputMap = outputMap := by simpa [collectToMap] using h
    exact ⟨nofun, fun _ => by rw [h]⟩
  | cons entry entries ih =>
    obtain ⟨k', v'⟩ := entry
    obtain ⟨hnot_mem, hnodup⟩ := List.nodupKeys_cons.mp hnodup
    obtain ⟨w, hw, h⟩ := (Effectful.bind_ok_iff _ _ _).mp h
    cases w with
    | none => cases h
    | some w =>
      obtain ⟨hsome, hnone⟩ := ih hnodup h
      by_cases hk : k = k'
      · -- the key of the entry is not the key of a later one
        subst hk
        have houtput := hnone (List.dlookup_eq_none.mpr hnot_mem)
        rw [AList.lookup_insert] at houtput
        constructor
        · intro v hv
          rw [List.dlookup_cons_eq, Option.some.injEq] at hv
          exact ⟨w, hv ▸ hw, houtput⟩
        · intro hv
          rw [List.dlookup_cons_eq] at hv
          cases hv
      · rw [List.dlookup_cons_ne _ _ hk]
        rw [AList.lookup_insert_ne hk] at hnone
        exact ⟨hsome, hnone⟩

/-- `collectToMap` ends well if the mapper gives no `null`. -/
theorem collectToMap_ok (entries : List (Entry K V₁)) (inputMap : JMap K V₂)
    (h : ∀ entry ∈ entries, ∃ w, (mapper entry.1 entry.2).result = .ok (some w)) :
    ∃ outputMap, (collectToMap mapper entries inputMap).result = .ok outputMap := by
  induction entries generalizing inputMap with
  | nil => exact ⟨inputMap, rfl⟩
  | cons entry entries ih =>
    obtain ⟨w, hw⟩ := h entry List.mem_cons_self
    obtain ⟨outputMap, houtput⟩ :=
      ih (inputMap.insert entry.1 w) fun e he => h e (List.mem_cons_of_mem _ he)
    exact ⟨outputMap, (Effectful.bind_ok_iff _ _ _).mpr ⟨some w, hw, houtput⟩⟩

/-- `collectToMap` throws at the first `null`, or where the mapper throws the same exception. -/
theorem collectToMap_null {entries : List (Entry K V₁)} {inputMap : JMap K V₂}
    (hends : ∀ entry ∈ entries, (∃ w, (mapper entry.1 entry.2).result = .ok w)
      ∨ (mapper entry.1 entry.2).result = .error .nullPointerException)
    (hnull : ∃ entry ∈ entries, (mapper entry.1 entry.2).result = .ok none
      ∨ (mapper entry.1 entry.2).result = .error .nullPointerException) :
    (collectToMap mapper entries inputMap).result = .error .nullPointerException := by
  induction entries generalizing inputMap with
  | nil =>
    obtain ⟨entry, hentry, -⟩ := hnull
    cases hentry
  | cons entry entries ih =>
    show (Effectful.bind (mapper entry.1 entry.2) _).result = _
    unfold Effectful.bind
    rcases hends entry List.mem_cons_self with ⟨_ | w, hok⟩ | herror
    · rw [hok]
      rfl
    · rw [hok]
      obtain ⟨entry', hentry', hbad⟩ := hnull
      rcases List.mem_cons.mp hentry' with rfl | hrest
      · rcases hbad with hbad | hbad <;> · rw [hok] at hbad; cases hbad
      · exact ih (fun e he => hends e (List.mem_cons_of_mem _ he)) ⟨entry', hrest, hbad⟩
    · rw [herror]

/-- The effects of `collectToMap` are those of the mapper. -/
theorem mem_effects_collectToMap {entries : List (Entry K V₁)} {inputMap : JMap K V₂}
    {effect : Effect} (h : effect ∈ (collectToMap mapper entries inputMap).effects) :
    ∃ entry ∈ entries, effect ∈ (mapper entry.1 entry.2).effects := by
  induction entries generalizing inputMap with
  | nil => cases h
  | cons entry entries ih =>
    rcases (Effectful.mem_effects_bind _ _ _).mp h with h | ⟨w, -, h⟩
    · exact ⟨entry, List.mem_cons_self, h⟩
    · cases w with
      | none => cases h
      | some w =>
        obtain ⟨entry', hentry', h⟩ := ih h
        exact ⟨entry', List.mem_cons_of_mem _ hentry', h⟩

/-- If it ends well, `collectToMap` has had the effects of the mapper for every entry. -/
theorem effects_collectToMap {entries : List (Entry K V₁)} {inputMap outputMap : JMap K V₂}
    (h : (collectToMap mapper entries inputMap).result = .ok outputMap) :
    (collectToMap mapper entries inputMap).effects
      = entries.flatMap fun entry => (mapper entry.1 entry.2).effects := by
  induction entries generalizing inputMap with
  | nil => rfl
  | cons entry entries ih =>
    rw [collectToMap] at h ⊢
    obtain ⟨w, hw, h⟩ := (Effectful.bind_ok_iff _ _ _).mp h
    rw [Effectful.effects_bind_of_ok hw, List.flatMap_cons]
    cases w with
    | none => cases h
    | some w => rw [ih h]

/-- `toMap` maps every entry, with a value that is not `null`. -/
theorem lookup_of_toMap {inputMap : JMap K V₁} {outputMap : JMap K V₂}
    (h : (toMap inputMap mapper).result = .ok outputMap) (k : K) (w : V₂) :
    outputMap.lookup k = some w
      ↔ ∃ v, inputMap.lookup k = some v ∧ (mapper k v).result = .ok (some w) := by
  obtain ⟨hsome, hnone⟩ := lookup_of_collectToMap inputMap.nodupKeys h k
  cases hk : inputMap.lookup k with
  | none =>
    rw [hnone hk]
    simp
  | some v =>
    obtain ⟨w', hw', houtput⟩ := hsome v hk
    rw [houtput]
    constructor
    · rintro ⟨⟩
      exact ⟨v, rfl, hw'⟩
    · rintro ⟨v', ⟨⟩, hw⟩
      rw [hw'] at hw
      injection hw

/-- `toMap` keeps the keys. -/
theorem exists_lookup_of_toMap {inputMap : JMap K V₁} {outputMap : JMap K V₂}
    (h : (toMap inputMap mapper).result = .ok outputMap) (k : K) :
    (∃ w, outputMap.lookup k = some w) ↔ ∃ v, inputMap.lookup k = some v := by
  constructor
  · rintro ⟨w, hw⟩
    obtain ⟨v, hv, -⟩ := (lookup_of_toMap h k w).mp hw
    exact ⟨v, hv⟩
  · rintro ⟨v, hv⟩
    obtain ⟨w, -, hw⟩ := (lookup_of_collectToMap inputMap.nodupKeys h k).1 v hv
    exact ⟨w, hw⟩

end

/-! ### Programs and their outputs -/

variable (env : Environment)

/-- The workspace has the program. -/
def Loaded (programId : ProgramId) (programTemplate : ProgramTemplate) : Prop :=
  ∃ programTemplates, loadProgramTemplates env = .ok programTemplates
    ∧ programTemplates.lookup programId = some programTemplate

/-- What the compiler gives for a program of the workspace and a group. -/
def IsCompilerOutput (programId : ProgramId) (group : Group) (compilerOutput : CompilerOutput) :
    Prop :=
  ∃ programTemplate, Loaded env programId programTemplate
    ∧ (compileProgramTemplate env programId programTemplate group).result = .ok compilerOutput

/-- What running a program of the workspace gives for a group. -/
def IsProcessOutput (programId : ProgramId) (group : Group)
    (processOutput : Option ProcessOutput) : Prop :=
  ∃ compilerOutput, IsCompilerOutput env programId group compilerOutput
    ∧ (runProgram programId compilerOutput group).result = .ok processOutput

/-- Every program of the workspace that can be run exits with status 0, for both groups. -/
def ExitsWithZero : Prop :=
  ∀ programId group compilerOutput program processOutput, group = Group.A ∨ group = Group.B →
    IsCompilerOutput env programId group compilerOutput →
    compilerOutput.program = some program → program.execute = .ok processOutput →
    processOutput.status = 0

/-- The map of evaluated programs that the exam of a group is made from. -/
def IsEvaluated (group : Group) (programTemplateMap : JMap ProgramId EvaluatedProgramTemplate) :
    Prop :=
  ∀ programId evaluated, programTemplateMap.lookup programId = some evaluated
    ↔ ∃ programTemplate processOutput, Loaded env programId programTemplate
      ∧ IsProcessOutput env programId group (some processOutput)
      ∧ evaluated = ⟨programTemplate, .ofProcessOutput processOutput⟩

variable {env}

theorem Loaded.unique {programId : ProgramId} {programTemplate programTemplate' : ProgramTemplate}
    (h : Loaded env programId programTemplate) (h' : Loaded env programId programTemplate') :
    programTemplate = programTemplate' := by
  obtain ⟨m, hm, h⟩ := h
  obtain ⟨m', hm', h'⟩ := h'
  rw [hm, Except.ok.injEq] at hm'
  subst hm'
  rw [h, Option.some.injEq] at h'
  exact h'

/-- The workspace has the same programs each time it is loaded. -/
theorem loaded_iff {programTemplates : JMap ProgramId ProgramTemplate}
    (h : loadProgramTemplates env = .ok programTemplates) (programId : ProgramId)
    (programTemplate : ProgramTemplate) :
    Loaded env programId programTemplate
      ↔ programTemplates.lookup programId = some programTemplate := by
  constructor
  · rintro ⟨m, hm, hlookup⟩
    rw [h, Except.ok.injEq] at hm
    rwa [hm]
  · intro hlookup
    exact ⟨programTemplates, h, hlookup⟩

/-- The maps of a group are equal. -/
theorem IsEvaluated.lookup_eq {group : Group} {m m' : JMap ProgramId EvaluatedProgramTemplate}
    (h : IsEvaluated env group m) (h' : IsEvaluated env group m') (programId : ProgramId) :
    m.lookup programId = m'.lookup programId := by
  ext evaluated
  rw [h programId evaluated, h' programId evaluated]

/-- A program that is run gives its process output if it exits with status 0, and else `null`. -/
theorem runProgram_ok_iff {programId : ProgramId} {compilerOutput : CompilerOutput}
    {group : Group} {output : Option ProcessOutput} :
    (runProgram programId compilerOutput group).result = .ok output
      ↔ ∃ program processOutput, compilerOutput.program = some program
        ∧ program.execute = .ok processOutput
        ∧ output = if processOutput.status = 0 then some processOutput else none := by
  unfold runProgram
  cases hprogram : compilerOutput.program with
  | none => simp
  | some program =>
    dsimp only
    rw [Effectful.bind_ok_iff, Effectful.result_ofExcept]
    cases hexecute : program.execute with
    | error e => simp [hexecute]
    | ok processOutput =>
      by_cases hstatus : processOutput.status = 0
      · simp [hexecute, hstatus, eq_comm]
      · simp [hexecute, hstatus]
        exact eq_comm

theorem IsCompilerOutput.unique {programId : ProgramId} {group : Group}
    {compilerOutput compilerOutput' : CompilerOutput}
    (h : IsCompilerOutput env programId group compilerOutput)
    (h' : IsCompilerOutput env programId group compilerOutput') :
    compilerOutput = compilerOutput' := by
  obtain ⟨programTemplate, hloaded, hcompile⟩ := h
  obtain ⟨programTemplate', hloaded', hcompile'⟩ := h'
  rw [← hloaded.unique hloaded', hcompile, Except.ok.injEq] at hcompile'
  exact hcompile'

theorem IsProcessOutput.unique {programId : ProgramId} {group : Group}
    {output output' : Option ProcessOutput} (h : IsProcessOutput env programId group output)
    (h' : IsProcessOutput env programId group output') : output = output' := by
  obtain ⟨compilerOutput, hcompiler, hrun⟩ := h
  obtain ⟨compilerOutput', hcompiler', hrun'⟩ := h'
  rw [← hcompiler.unique hcompiler', hrun, Except.ok.injEq] at hrun'
  exact hrun'

theorem IsProcessOutput.loaded {programId : ProgramId} {group : Group}
    {output : Option ProcessOutput} (h : IsProcessOutput env programId group output) :
    ∃ programTemplate, Loaded env programId programTemplate := by
  obtain ⟨compilerOutput, ⟨programTemplate, hloaded, -⟩, -⟩ := h
  exact ⟨programTemplate, hloaded⟩

/-- No output is `null` if and only if every program exits with status 0. -/
theorem exitsWithZero_iff :
    ExitsWithZero env ↔ ∀ programId group, group = Group.A ∨ group = Group.B →
      ¬ IsProcessOutput env programId group none := by
  constructor
  · rintro h programId group hgroup ⟨compilerOutput, hcompiler, hrun⟩
    obtain ⟨program, processOutput, hprogram, hexecute, hnone⟩ := runProgram_ok_iff.mp hrun
    rw [if_pos (h _ _ _ _ _ hgroup hcompiler hprogram hexecute)] at hnone
    cases hnone
  · intro h programId group compilerOutput program processOutput hgroup hcompiler hprogram hexecute
    by_contra hstatus
    refine h programId group hgroup ⟨compilerOutput, hcompiler, ?_⟩
    exact runProgram_ok_iff.mpr ⟨program, processOutput, hprogram, hexecute, by rw [if_neg hstatus]⟩

/-! ### Diagnostics -/

/-- The only effects of a computation are diagnostics. -/
def OnlyDiagnostics {α : Type} (m : Effectful α) : Prop :=
  ∀ effect ∈ m.effects, ∃ diagnostic, effect = .diagnostic diagnostic

theorem onlyDiagnostics_compileProgramTemplate (programId : ProgramId)
    (programTemplate : ProgramTemplate) (group : Group) :
    OnlyDiagnostics (compileProgramTemplate env programId programTemplate group) := by
  intro effect heffect
  unfold compileProgramTemplate at heffect
  rcases (Effectful.mem_effects_bind _ _ _).mp heffect with h | ⟨compilerOutput, -, h⟩
  · cases h
  · cases hdiagnostics : compilerOutput.diagnostics <;> simp [hdiagnostics] at h
    exact ⟨_, h⟩

theorem onlyDiagnostics_runProgram (programId : ProgramId) (compilerOutput : CompilerOutput)
    (group : Group) : OnlyDiagnostics (runProgram programId compilerOutput group) := by
  intro effect heffect
  unfold runProgram at heffect
  cases hprogram : compilerOutput.program with
  | none => simp [hprogram] at heffect
  | some program =>
    simp only [hprogram] at heffect
    rcases (Effectful.mem_effects_bind _ _ _).mp heffect with h | ⟨processOutput, -, h⟩
    · cases h
    · by_cases hstatus : processOutput.status = 0 <;> simp [hstatus] at h
      exact ⟨_, h⟩

theorem OnlyDiagnostics.collectToMap {K V₁ V₂ : Type} [DecidableEq K]
    {mapper : K → V₁ → Effectful (Option V₂)} (h : ∀ k v, OnlyDiagnostics (mapper k v))
    (entries : List (Entry K V₁)) (inputMap : JMap K V₂) :
    OnlyDiagnostics (collectToMap mapper entries inputMap) := by
  intro effect heffect
  obtain ⟨entry, -, hmapper⟩ := mem_effects_collectToMap heffect
  exact h entry.1 entry.2 effect hmapper

theorem OnlyDiagnostics.map {α β : Type} {m : Effectful α} (h : OnlyDiagnostics m) (f : α → β) :
    OnlyDiagnostics (f <$> m) := by
  intro effect heffect
  exact h effect ((Effectful.mem_effects_map f m effect).mp heffect)

theorem onlyDiagnostics_pure {α : Type} (a : α) : OnlyDiagnostics (pure a) := nofun

theorem onlyDiagnostics_ofExcept {α : Type} (result : Except JavaException α) :
    OnlyDiagnostics (Effectful.ofExcept result) := nofun

theorem OnlyDiagnostics.bind {α β : Type} {m : Effectful α} {f : α → Effectful β}
    (hm : OnlyDiagnostics m) (hf : ∀ a, OnlyDiagnostics (f a)) : OnlyDiagnostics (m >>= f) := by
  intro effect heffect
  rcases (Effectful.mem_effects_bind m f effect).mp heffect with h | ⟨a, -, h⟩
  · exact hm effect h
  · exact hf a effect h

theorem OnlyDiagnostics.forM {α : Type} {f : α → Effectful Unit} (hf : ∀ a, OnlyDiagnostics (f a))
    (xs : List α) : OnlyDiagnostics (forM xs f) := by
  induction xs with
  | nil => exact onlyDiagnostics_pure ()
  | cons x xs ih => exact (hf x).bind fun _ => ih

theorem onlyDiagnostics_compileProgramTemplates
    (programTemplates : JMap ProgramId ProgramTemplate) (groupCount : ℕ) :
    OnlyDiagnostics (compileProgramTemplates env programTemplates groupCount) := by
  apply OnlyDiagnostics.collectToMap
  intro programId programTemplate
  apply OnlyDiagnostics.map
  apply OnlyDiagnostics.collectToMap
  intro group _
  apply OnlyDiagnostics.map
  exact onlyDiagnostics_compileProgramTemplate programId programTemplate group

theorem onlyDiagnostics_runPrograms
    (compilerOutputMap : JMap ProgramId (JMap Group CompilerOutput)) :
    OnlyDiagnostics (runPrograms compilerOutputMap) := by
  rw [runPrograms_eq]
  apply OnlyDiagnostics.collectToMap
  intro programId compilerOutputInnerMap
  apply OnlyDiagnostics.map
  apply OnlyDiagnostics.collectToMap
  intro group compilerOutput
  exact onlyDiagnostics_runProgram programId compilerOutput group

/-! ### All programs at once -/

/-- Every program of the table can be run. -/
def AllExecute (compilerOutputMap : JMap ProgramId (JMap Group CompilerOutput)) : Prop :=
  ∀ programId compilerOutputs group compilerOutput,
    compilerOutputMap.lookup programId = some compilerOutputs →
    compilerOutputs.lookup group = some compilerOutput →
    ∃ program processOutput, compilerOutput.program = some program ∧
      program.execute = .ok processOutput

/-- Every program of the table exits with status 0. -/
def AllExitWithZero (compilerOutputMap : JMap ProgramId (JMap Group CompilerOutput)) : Prop :=
  ∀ programId compilerOutputs group compilerOutput program processOutput,
    compilerOutputMap.lookup programId = some compilerOutputs →
    compilerOutputs.lookup group = some compilerOutput →
    compilerOutput.program = some program → program.execute = .ok processOutput →
    processOutput.status = 0

/-- What running each program of the table on its own writes. -/
def individualEffects (compilerOutputMap : JMap ProgramId (JMap Group CompilerOutput)) :
    List Effect :=
  compilerOutputMap.entries.flatMap fun entry => entry.2.entries.flatMap fun entry1 =>
    (runProgram entry.1 entry1.2 entry1.1).effects

/-- A table with the same program ids and groups, and in it what `runProgram` gives for each of
them, which may be `null`. -/
structure IsRunOfEach (compilerOutputMap : JMap ProgramId (JMap Group CompilerOutput))
    (processOutputMap : JMap ProgramId (JMap Group (Option ProcessOutput))) : Prop where
  ids : ∀ programId, (∃ processOutputs, processOutputMap.lookup programId = some processOutputs) ↔
    ∃ compilerOutputs, compilerOutputMap.lookup programId = some compilerOutputs
  groups : ∀ programId compilerOutputs processOutputs group,
    compilerOutputMap.lookup programId = some compilerOutputs →
    processOutputMap.lookup programId = some processOutputs →
    ((∃ processOutput, processOutputs.lookup group = some processOutput) ↔
      ∃ compilerOutput, compilerOutputs.lookup group = some compilerOutput)
  entries : ∀ programId compilerOutputs processOutputs group compilerOutput processOutput,
    compilerOutputMap.lookup programId = some compilerOutputs →
    processOutputMap.lookup programId = some processOutputs →
    compilerOutputs.lookup group = some compilerOutput →
    processOutputs.lookup group = some processOutput →
    (runProgram programId compilerOutput group).result = .ok processOutput

/-- Whatever the programs exit with, there is such a table. -/
theorem exists_isRunOfEach {compilerOutputMap : JMap ProgramId (JMap Group CompilerOutput)}
    (hexecute : AllExecute compilerOutputMap) :
    ∃ processOutputMap, IsRunOfEach compilerOutputMap processOutputMap := by
  let output (programId : ProgramId) (entry : Entry Group CompilerOutput) : Option ProcessOutput :=
    (runProgram programId entry.2 entry.1).result.toOption.join
  refine ⟨mapMapByEntry compilerOutputMap fun entry => mapMapByEntry entry.2 (output entry.1),
    fun programId => ?_, fun programId _ _ group hcompiler hprocess => ?_,
    fun programId _ _ group compilerOutput processOutput hcompiler hprocess houtput hlookup => ?_⟩
  · rw [lookup_mapMapByEntry]
    cases compilerOutputMap.lookup programId <;> simp
  · rw [lookup_mapMapByEntry, hcompiler] at hprocess
    obtain rfl := Option.some.inj hprocess
    rw [lookup_mapMapByEntry]
    simp
  · rw [lookup_mapMapByEntry, hcompiler] at hprocess
    obtain rfl := Option.some.inj hprocess
    rw [lookup_mapMapByEntry, houtput] at hlookup
    obtain rfl := Option.some.inj hlookup
    obtain ⟨program, found, hprogram, hexecutes⟩ := hexecute _ _ _ _ hcompiler houtput
    have hrun : (runProgram programId compilerOutput group).result
        = .ok (if found.status = 0 then some found else none) :=
      runProgram_ok_iff.mpr ⟨program, found, hprogram, hexecutes, rfl⟩
    simp only [output, hrun]
    rfl

/-- The table that `runPrograms` returns, as one in which outputs may be `null`. -/
def nullable (processOutputMap : JMap ProgramId (JMap Group ProcessOutput)) :
    JMap ProgramId (JMap Group (Option ProcessOutput)) :=
  mapMapByValue processOutputMap fun processOutputs => mapMapByValue processOutputs some

/-- `runPrograms` returns the table of what `runProgram` gives for each program and group, and
writes what the calls of `runProgram` write. -/
structure RunsAgree (compilerOutputMap : JMap ProgramId (JMap Group CompilerOutput))
    (processOutputMap : JMap ProgramId (JMap Group (Option ProcessOutput))) : Prop where
  result : (runPrograms compilerOutputMap).result.map nullable = .ok processOutputMap
  isRunOfEach : IsRunOfEach compilerOutputMap processOutputMap
  effects : (runPrograms compilerOutputMap).effects.Perm (individualEffects compilerOutputMap)

/-- The rows of the table that `runPrograms` makes. -/
theorem lookup_of_runPrograms {compilerOutputMap : JMap ProgramId (JMap Group CompilerOutput)}
    {processOutputMap : JMap ProgramId (JMap Group ProcessOutput)}
    (h : (runPrograms compilerOutputMap).result = .ok processOutputMap) {programId : ProgramId}
    {compilerOutputs : JMap Group CompilerOutput}
    (hcompiler : compilerOutputMap.lookup programId = some compilerOutputs) :
    ∃ processOutputs, processOutputMap.lookup programId = some processOutputs ∧
      (toMap compilerOutputs fun group compilerOutput =>
        runProgram programId compilerOutput group).result = .ok processOutputs := by
  rw [runPrograms_eq] at h
  obtain ⟨processOutputs, hprocess⟩ := (exists_lookup_of_toMap h programId).mpr ⟨_, hcompiler⟩
  obtain ⟨inputs, hinputs, hrun⟩ := (lookup_of_toMap h _ _).mp hprocess
  obtain rfl := Option.some.inj (hcompiler.symm.trans hinputs)
  obtain ⟨_, hrun, ⟨⟩⟩ := (Effectful.map_ok_iff _ _ _).mp hrun
  exact ⟨processOutputs, hprocess, hrun⟩

theorem isRunOfEach_of_result {compilerOutputMap : JMap ProgramId (JMap Group CompilerOutput)}
    {processOutputMap : JMap ProgramId (JMap Group ProcessOutput)}
    (h : (runPrograms compilerOutputMap).result = .ok processOutputMap) :
    IsRunOfEach compilerOutputMap (nullable processOutputMap) where
  ids programId := by
    rw [nullable, lookup_mapMapByValue, ← exists_lookup_of_toMap h programId]
    simp
  groups := by
    intro programId compilerOutputs processOutputs group hcompiler hprocess
    obtain ⟨found, hfound, hrun⟩ := lookup_of_runPrograms h hcompiler
    rw [nullable, lookup_mapMapByValue, hfound] at hprocess
    obtain rfl := Option.some.inj hprocess
    rw [lookup_mapMapByValue, ← exists_lookup_of_toMap hrun group]
    simp
  entries := by
    intro programId compilerOutputs processOutputs group compilerOutput processOutput hcompiler
      hprocess houtput hlookup
    obtain ⟨found, hfound, hrun⟩ := lookup_of_runPrograms h hcompiler
    rw [nullable, lookup_mapMapByValue, hfound] at hprocess
    obtain rfl := Option.some.inj hprocess
    rw [lookup_mapMapByValue] at hlookup
    obtain ⟨value, hvalue, rfl⟩ := Option.map_eq_some_iff.mp hlookup
    obtain ⟨compilerOutput', houtput', hresult⟩ := (lookup_of_toMap hrun _ _).mp hvalue
    obtain rfl := Option.some.inj (houtput.symm.trans houtput')
    exact hresult

theorem runsAgree_of_result {compilerOutputMap : JMap ProgramId (JMap Group CompilerOutput)}
    {processOutputMap : JMap ProgramId (JMap Group ProcessOutput)}
    (h : (runPrograms compilerOutputMap).result = .ok processOutputMap) :
    RunsAgree compilerOutputMap (nullable processOutputMap) where
  result := by rw [h, Except.map]
  isRunOfEach := isRunOfEach_of_result h
  effects := by
    have heffects := effects_collectToMap (runPrograms_eq compilerOutputMap ▸ h)
    rw [runPrograms_eq, toMap, heffects, individualEffects]
    refine List.Perm.of_eq (List.flatMap_congr fun entry hentry => ?_)
    obtain ⟨processOutputs, -, hrun⟩ := lookup_of_runPrograms h (AList.mem_lookup_iff.mpr hentry)
    rw [Effectful.effects_map]
    exact effects_collectToMap hrun

section

variable {compilerOutputMap : JMap ProgramId (JMap Group CompilerOutput)}
  (hexecute : AllExecute compilerOutputMap)

include hexecute

/-- Running a program of the table gives its output or `null`. -/
theorem runProgram_of_allExecute {programId : ProgramId}
    {compilerOutputs : JMap Group CompilerOutput}
    (hcompiler : compilerOutputMap.lookup programId = some compilerOutputs)
    {entry : Entry Group CompilerOutput} (hentry : entry ∈ compilerOutputs.entries) :
    ∃ processOutput, (runProgram programId entry.2 entry.1).result = .ok processOutput := by
  obtain ⟨program, processOutput, hprogram, hexecutes⟩ :=
    hexecute _ _ _ _ hcompiler (AList.mem_lookup_iff.mpr hentry)
  exact ⟨_, runProgram_ok_iff.mpr ⟨program, processOutput, hprogram, hexecutes, rfl⟩⟩

/-- If all programs exit with status 0, `runPrograms` ends well. -/
theorem runPrograms_of_allExitWithZero (hzero : AllExitWithZero compilerOutputMap) :
    ∃ processOutputMap, (runPrograms compilerOutputMap).result = .ok processOutputMap := by
  have hrow : ∀ entry ∈ compilerOutputMap.entries, ∃ processOutputs,
      (toMap entry.2 fun group compilerOutput =>
        runProgram entry.1 compilerOutput group).result = .ok processOutputs := by
    intro entry hentry
    refine collectToMap_ok _ _ fun entry1 hentry1 => ?_
    have hcompiler := AList.mem_lookup_iff.mpr hentry
    have houtput := AList.mem_lookup_iff.mpr hentry1
    obtain ⟨program, processOutput, hprogram, hexecutes⟩ := hexecute _ _ _ _ hcompiler houtput
    have hstatus := hzero _ _ _ _ _ _ hcompiler houtput hprogram hexecutes
    exact ⟨processOutput,
      runProgram_ok_iff.mpr ⟨program, processOutput, hprogram, hexecutes, by rw [if_pos hstatus]⟩⟩
  rw [runPrograms_eq]
  refine collectToMap_ok _ _ fun entry hentry => ?_
  obtain ⟨processOutputs, hrun⟩ := hrow entry hentry
  exact ⟨processOutputs, (Effectful.map_ok_iff _ _ _).mpr ⟨processOutputs, hrun, rfl⟩⟩

/-- If a program does not, its `null` makes `runPrograms` throw. -/
theorem runPrograms_of_not_allExitWithZero (hzero : ¬ AllExitWithZero compilerOutputMap) :
    (runPrograms compilerOutputMap).result = .error .nullPointerException := by
  unfold AllExitWithZero at hzero
  push Not at hzero
  obtain ⟨programId, compilerOutputs, group, compilerOutput, program, processOutput, hcompiler,
    houtput, hprogram, hexecutes, hstatus⟩ := hzero
  have hnull : (runProgram programId compilerOutput group).result = .ok none :=
    runProgram_ok_iff.mpr ⟨program, processOutput, hprogram, hexecutes, by rw [if_neg hstatus]⟩
  have hmapError : ∀ {m : Effectful (JMap Group ProcessOutput)},
      m.result = .error .nullPointerException →
      (some <$> m).result = .error .nullPointerException := by
    intro m hm
    show (Effectful.bind m _).result = _
    unfold Effectful.bind
    rw [hm]
  rw [runPrograms_eq]
  refine collectToMap_null (fun entry hentry => ?_)
    ⟨⟨programId, compilerOutputs⟩, AList.mem_lookup_iff.mp hcompiler, .inr (hmapError ?_)⟩
  · -- each row is complete, or has a `null`, too
    have hruns : ∀ entry1 ∈ entry.2.entries, ∃ found,
        (runProgram entry.1 entry1.2 entry1.1).result = .ok found :=
      fun entry1 => runProgram_of_allExecute hexecute (AList.mem_lookup_iff.mpr hentry)
    by_cases hrow : ∃ entry1 ∈ entry.2.entries,
        (runProgram entry.1 entry1.2 entry1.1).result = .ok none
    · obtain ⟨entry1, hentry1, hnone⟩ := hrow
      exact .inr (hmapError (collectToMap_null (fun e he => .inl (hruns e he))
        ⟨entry1, hentry1, .inl hnone⟩))
    · push Not at hrow
      have hfound : ∀ entry1 ∈ entry.2.entries, ∃ found,
          (runProgram entry.1 entry1.2 entry1.1).result = .ok (some found) := by
        intro entry1 hentry1
        obtain ⟨_ | found, hfound⟩ := hruns entry1 hentry1
        · exact absurd hfound (hrow entry1 hentry1)
        · exact ⟨found, hfound⟩
      obtain ⟨processOutputs, hrun⟩ : ∃ processOutputs, (toMap entry.2 fun group compilerOutput =>
          runProgram entry.1 compilerOutput group).result = .ok processOutputs :=
        collectToMap_ok _ _ hfound
      exact .inl ⟨some processOutputs,
        (Effectful.map_ok_iff _ _ _).mpr ⟨processOutputs, hrun, rfl⟩⟩
  · exact collectToMap_null
      (fun entry1 hentry1 => .inl (runProgram_of_allExecute hexecute hcompiler hentry1))
      ⟨⟨group, compilerOutput⟩, AList.mem_lookup_iff.mp houtput, .inl hnull⟩

/-- **When running all programs agrees with running each one**: exactly when all of them exit with
status 0. -/
theorem runsAgree_iff :
    (∃ processOutputMap, RunsAgree compilerOutputMap processOutputMap) ↔
      AllExitWithZero compilerOutputMap := by
  constructor
  · rintro ⟨processOutputMap, h⟩
    by_contra hzero
    have hresult := h.result
    rw [runPrograms_of_not_allExitWithZero hexecute hzero] at hresult
    cases hresult
  · intro hzero
    obtain ⟨processOutputMap, h⟩ := runPrograms_of_allExitWithZero hexecute hzero
    exact ⟨nullable processOutputMap, runsAgree_of_result h⟩

end

/-- One program, which exits with the given status for group A. -/
def exitingWith (status : ℤ) : JMap ProgramId (JMap Group CompilerOutput) :=
  mapToMap [⟨1⟩] fun _ => mapToMap [Group.A] fun _ => ⟨[], some ⟨.ok ⟨[], [], status⟩⟩⟩

theorem allExecute_exitingWith (status : ℤ) : AllExecute (exitingWith status) := by
  intro programId compilerOutputs group compilerOutput hcompiler houtput
  rw [exitingWith, lookup_mapToMap] at hcompiler
  split_ifs at hcompiler
  obtain rfl := Option.some.inj hcompiler
  rw [lookup_mapToMap] at houtput
  split_ifs at houtput
  obtain rfl := Option.some.inj houtput
  exact ⟨_, _, rfl, rfl⟩

/-- A program that exits with status 0. -/
theorem runsAgree_iff_example :
    ∃ processOutputMap, RunsAgree (exitingWith 0) processOutputMap := by
  refine (runsAgree_iff (allExecute_exitingWith 0)).mpr ?_
  intro programId compilerOutputs group compilerOutput program processOutput hcompiler houtput
    hprogram hexecutes
  rw [exitingWith, lookup_mapToMap] at hcompiler
  split_ifs at hcompiler
  obtain rfl := Option.some.inj hcompiler
  rw [lookup_mapToMap] at houtput
  split_ifs at houtput
  obtain rfl := Option.some.inj houtput
  obtain rfl := Option.some.inj hprogram
  obtain rfl := Except.ok.inj hexecutes
  rfl

/-- A program that exits with status 1 makes `runPrograms` throw, although there is a table with its
`null`. -/
theorem failing_program_ends_all :
    ¬ ∀ compilerOutputMap, AllExecute compilerOutputMap →
      ∃ processOutputMap, RunsAgree compilerOutputMap processOutputMap := by
  intro h
  obtain ⟨processOutputMap, hagree⟩ := h (exitingWith 1) (allExecute_exitingWith 1)
  have hthrows : (runPrograms (exitingWith 1)).result = .error .nullPointerException := rfl
  have hresult := hagree.result
  rw [hthrows] at hresult
  cases hresult

end ExamGeneratorNg
