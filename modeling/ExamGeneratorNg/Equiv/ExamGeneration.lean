import ExamGeneratorNg.Equiv.ProjectTask

/-!
# The two ways of generating exams

The command line compiles and runs all programs one after another and turns the outputs, a map
from programs to maps from groups, into one map for each group; the graphical interface has a
promise for every program and group.  `examVariants_agree` says that both make the exams of a
group from the same map.
-/

namespace ExamGeneratorNg

open Promise

variable {env : Environment} {s : TaskState}

/-! ### Tables of outputs -/

/-- A map with a value for every program of the workspace and each of the two groups. -/
structure IsTable {V : Type} (env : Environment) (IsValue : ProgramId → Group → V → Prop)
    (table : JMap ProgramId (JMap Group V)) : Prop where
  keys : ∀ programId, (∃ values, table.lookup programId = some values)
    ↔ ∃ programTemplate, Loaded env programId programTemplate
  groups : ∀ programId values, table.lookup programId = some values →
    ∀ group, (∃ value, values.lookup group = some value) ↔ IsGroup group
  isValue : ∀ programId values, table.lookup programId = some values →
    ∀ group value, values.lookup group = some value → IsValue programId group value

/-- The keys of the maps that `compileProgramTemplateForGroups` fills. -/
theorem dlookup_groupsFrom (group : Group) :
    (∃ v, (groupsFrom groupsCount).dlookup group = some v) ↔ IsGroup group := by
  rw [← Option.isSome_iff_exists, List.dlookup_isSome]
  show group ∈ [Group.A, Group.B] ↔ _
  simp [IsGroup]

theorem nodupKeys_groupsFrom : (groupsFrom groupsCount).NodupKeys := by
  show [Group.A, Group.B].Nodup
  decide

theorem lookup_compileProgramTemplateForGroups {programId : ProgramId}
    {programTemplate : ProgramTemplate} {compilerOutputs : JMap Group CompilerOutput}
    (h : (compileProgramTemplateForGroups env programId programTemplate groupsCount).result
      = .ok compilerOutputs) (group : Group) :
    ((∃ compilerOutput, compilerOutputs.lookup group = some compilerOutput) ↔ IsGroup group)
    ∧ ∀ compilerOutput, compilerOutputs.lookup group = some compilerOutput →
      (compileProgramTemplate env programId programTemplate group).result = .ok compilerOutput := by
  obtain ⟨hsome, hnone⟩ := lookup_of_collectToMap nodupKeys_groupsFrom h group
  rw [← dlookup_groupsFrom]
  cases hgroup : (groupsFrom groupsCount).dlookup group with
  | none =>
    rw [hnone hgroup, AList.lookup_empty]
    simp
  | some v =>
    obtain ⟨compilerOutput, hcompile, hlookup⟩ := hsome v hgroup
    rw [hlookup]
    obtain ⟨_, hcompile, ⟨⟩⟩ := (Effectful.map_ok_iff _ _ _).mp hcompile
    refine ⟨by simp, ?_⟩
    rintro _ ⟨⟩
    exact hcompile

theorem isTable_compileProgramTemplates {programTemplates : JMap ProgramId ProgramTemplate}
    {compilerOutputs : JMap ProgramId (JMap Group CompilerOutput)}
    (hload : loadProgramTemplates env = .ok programTemplates)
    (h : (compileProgramTemplates env programTemplates groupsCount).result = .ok compilerOutputs) :
    IsTable env (IsCompilerOutput env) compilerOutputs := by
  have hvalues : ∀ programId values, compilerOutputs.lookup programId = some values →
      ∃ programTemplate, Loaded env programId programTemplate
        ∧ (compileProgramTemplateForGroups env programId programTemplate groupsCount).result
          = .ok values := by
    intro programId values hlookup
    obtain ⟨programTemplate, htemplate, hcompile⟩ := (lookup_of_toMap h _ _).mp hlookup
    obtain ⟨_, hcompile, ⟨⟩⟩ := (Effectful.map_ok_iff _ _ _).mp hcompile
    exact ⟨programTemplate, (loaded_iff hload _ _).mpr htemplate, hcompile⟩
  constructor
  case keys =>
    intro programId
    simp only [loaded_iff hload]
    exact exists_lookup_of_toMap h programId
  case groups =>
    intro programId values hlookup group
    obtain ⟨programTemplate, -, hcompile⟩ := hvalues programId values hlookup
    exact (lookup_compileProgramTemplateForGroups hcompile group).1
  case isValue =>
    intro programId values hlookup group compilerOutput hvalue
    obtain ⟨programTemplate, hloaded, hcompile⟩ := hvalues programId values hlookup
    exact ⟨programTemplate, hloaded,
      (lookup_compileProgramTemplateForGroups hcompile group).2 compilerOutput hvalue⟩

/-- A table whose rows are made from the rows of another one, value by value. -/
theorem IsTable.map {V W : Type} {IsV : ProgramId → Group → V → Prop}
    {IsW : ProgramId → Group → W → Prop} {table : JMap ProgramId (JMap Group V)}
    {table' : JMap ProgramId (JMap Group W)} (h : IsTable env IsV table)
    (hkeys : ∀ programId, (∃ values, table'.lookup programId = some values)
      ↔ ∃ inputs, table.lookup programId = some inputs)
    (hvalues : ∀ programId values, table'.lookup programId = some values →
      ∃ inputs, table.lookup programId = some inputs ∧ ∀ group,
        ((∃ w, values.lookup group = some w) ↔ ∃ v, inputs.lookup group = some v)
        ∧ ∀ w, values.lookup group = some w →
          ∃ v, inputs.lookup group = some v ∧ (IsV programId group v → IsW programId group w)) :
    IsTable env IsW table' where
  keys programId := (hkeys programId).trans (h.keys programId)
  groups programId values hlookup group := by
    obtain ⟨inputs, hinputs, hrow⟩ := hvalues programId values hlookup
    exact (hrow group).1.trans (h.groups programId inputs hinputs group)
  isValue programId values hlookup group w hw := by
    obtain ⟨inputs, hinputs, hrow⟩ := hvalues programId values hlookup
    obtain ⟨v, hv, hvw⟩ := (hrow group).2 w hw
    exact hvw (h.isValue programId inputs hinputs group v hv)

theorem isTable_runPrograms {compilerOutputs : JMap ProgramId (JMap Group CompilerOutput)}
    {processOutputs : JMap ProgramId (JMap Group ProcessOutput)}
    (hcompiler : IsTable env (IsCompilerOutput env) compilerOutputs)
    (h : (runPrograms compilerOutputs).result = .ok processOutputs) :
    IsTable env (fun programId group processOutput =>
      IsProcessOutput env programId group (some processOutput)) processOutputs := by
  refine hcompiler.map (exists_lookup_of_toMap h) fun programId values hlookup => ?_
  obtain ⟨inputs, hinputs, hrun⟩ := (lookup_of_toMap h _ _).mp hlookup
  obtain ⟨_, hrun, ⟨⟩⟩ := (Effectful.map_ok_iff _ _ _).mp hrun
  refine ⟨inputs, hinputs, fun group => ⟨exists_lookup_of_toMap hrun group, ?_⟩⟩
  intro processOutput hvalue
  obtain ⟨compilerOutput, hinput, hprocess⟩ := (lookup_of_toMap hrun _ _).mp hvalue
  exact ⟨compilerOutput, hinput, fun hcompiler => ⟨compilerOutput, hcompiler, hprocess⟩⟩

/-- The outputs of all programs for both groups. -/
abbrev IsOutputs (env : Environment) : JMap ProgramId (JMap Group ProgramOutput) → Prop :=
  IsTable env fun programId group programOutput => ∃ processOutput,
    IsProcessOutput env programId group (some processOutput)
      ∧ programOutput = .ofProcessOutput processOutput

theorem isOutputs_extractStandardOutputs
    {processOutputs : JMap ProgramId (JMap Group ProcessOutput)}
    (h : IsTable env (fun programId group processOutput =>
      IsProcessOutput env programId group (some processOutput)) processOutputs) :
    IsOutputs env (extractStandardOutputs processOutputs) := by
  unfold extractStandardOutputs
  refine h.map (fun programId => by simp) fun programId values hlookup => ?_
  rw [lookup_mapMapByValue, Option.map_eq_some_iff] at hlookup
  obtain ⟨inputs, hinputs, rfl⟩ := hlookup
  refine ⟨inputs, hinputs, fun group => ⟨by simp, ?_⟩⟩
  intro programOutput hvalue
  rw [lookup_mapMapByValue, Option.map_eq_some_iff] at hvalue
  obtain ⟨processOutput, hinput, rfl⟩ := hvalue
  exact ⟨processOutput, hinput, fun hprocess => ⟨processOutput, hprocess, rfl⟩⟩

/-- Every program of the workspace compiles, and exits with status 0, for both groups. -/
def ProgramsRun (env : Environment) : Prop :=
  ∀ programId programTemplate group, Loaded env programId programTemplate → IsGroup group →
    ∃ processOutput, IsProcessOutput env programId group (some processOutput)

/-- There is a table of outputs only if every program has one for each group. -/
theorem IsTable.programsRun {outputs : JMap ProgramId (JMap Group ProgramOutput)}
    (h : IsOutputs env outputs) : ProgramsRun env := by
  intro programId programTemplate group hloaded hgroup
  obtain ⟨values, hvalues⟩ := (h.keys programId).mpr ⟨programTemplate, hloaded⟩
  obtain ⟨programOutput, hvalue⟩ := (h.groups programId values hvalues group).mpr hgroup
  obtain ⟨processOutput, hprocess, -⟩ := h.isValue programId values hvalues group _ hvalue
  exact ⟨processOutput, hprocess⟩

/-! ### The exam of a group on the command line -/

section

variable {programTemplates : JMap ProgramId ProgramTemplate}
  {outputs : JMap ProgramId (JMap Group ProgramOutput)}

theorem lookup_extractGroupOutputs {group : Group} {groupOutputs : JMap ProgramId ProgramOutput}
    (h : (extractGroupOutputs outputs group).result = .ok groupOutputs) (programId : ProgramId)
    (programOutput : ProgramOutput) :
    groupOutputs.lookup programId = some programOutput
      ↔ ∃ values, outputs.lookup programId = some values
        ∧ values.lookup group = some programOutput := by
  rw [lookup_of_toMap h]
  simp

/-- The map of a group, picked out of the table and completed by the programs. -/
theorem isEvaluated_of_extractGroupOutputs (hload : loadProgramTemplates env = .ok programTemplates)
    (houtputs : IsOutputs env outputs) {group : Group} (hgroup : IsGroup group)
    {groupOutputs : JMap ProgramId ProgramOutput}
    {evaluated : JMap ProgramId EvaluatedProgramTemplate}
    (hextract : (extractGroupOutputs outputs group).result = .ok groupOutputs)
    (h : ∀ programId template, evaluated.lookup programId = some template
      ↔ ∃ programOutput, groupOutputs.lookup programId = some programOutput
        ∧ ∃ programTemplate, programTemplates.lookup programId = some programTemplate
          ∧ template = ⟨programTemplate, programOutput⟩) :
    IsEvaluated env group evaluated := by
  intro programId template
  rw [h]
  simp only [lookup_extractGroupOutputs hextract, ← loaded_iff hload]
  constructor
  · rintro ⟨programOutput, ⟨values, hvalues, hvalue⟩, programTemplate, hloaded, rfl⟩
    obtain ⟨processOutput, hprocess, rfl⟩ :=
      houtputs.isValue programId values hvalues group _ hvalue
    exact ⟨programTemplate, processOutput, hloaded, hprocess, rfl⟩
  · rintro ⟨programTemplate, processOutput, hloaded, hprocess, rfl⟩
    obtain ⟨values, hvalues⟩ := (houtputs.keys programId).mpr ⟨programTemplate, hloaded⟩
    obtain ⟨programOutput, hvalue⟩ :=
      (houtputs.groups programId values hvalues group).mpr hgroup
    obtain ⟨processOutput', hprocess', rfl⟩ :=
      houtputs.isValue programId values hvalues group _ hvalue
    -- a program has one output only
    have heq := hprocess.unique hprocess'
    rw [Option.some.injEq] at heq
    subst heq
    exact ⟨_, ⟨values, hvalues, hvalue⟩, programTemplate, hloaded, rfl⟩

/-- The program of an output is found again. -/
theorem lookup_evaluated {groupOutputs : JMap ProgramId ProgramOutput}
    {evaluated : JMap ProgramId EvaluatedProgramTemplate}
    (h : (toMap groupOutputs fun programId programOutput =>
      match programTemplates.lookup programId with
      | some programTemplate => pure (some ⟨programTemplate, programOutput⟩)
      | none => Effectful.ofExcept (.error .nullPointerException)).result = .ok evaluated)
    (programId : ProgramId) (template : EvaluatedProgramTemplate) :
    evaluated.lookup programId = some template
      ↔ ∃ programOutput, groupOutputs.lookup programId = some programOutput
        ∧ ∃ programTemplate, programTemplates.lookup programId = some programTemplate
          ∧ template = ⟨programTemplate, programOutput⟩ := by
  rw [lookup_of_toMap h]
  refine exists_congr fun programOutput => and_congr_right fun _ => ?_
  cases programTemplates.lookup programId with
  | none => simp
  | some programTemplate => simp [eq_comm]

theorem onlyDiagnostics_evaluated (groupOutputs : JMap ProgramId ProgramOutput) :
    OnlyDiagnostics (toMap groupOutputs fun programId programOutput =>
      match programTemplates.lookup programId with
      | some programTemplate =>
        pure (some (⟨programTemplate, programOutput⟩ : EvaluatedProgramTemplate))
      | none => Effectful.ofExcept (.error .nullPointerException)) := by
  apply OnlyDiagnostics.collectToMap
  intro programId programOutput
  split
  · exact onlyDiagnostics_pure _
  · exact onlyDiagnostics_ofExcept _

theorem onlyDiagnostics_extractGroupOutputs (group : Group) :
    OnlyDiagnostics (extractGroupOutputs outputs group) :=
  OnlyDiagnostics.collectToMap (fun _ _ => onlyDiagnostics_pure _) _ _

theorem onlyDiagnostics_generateFilesWithProgramsOutputs :
    OnlyDiagnostics (generateFilesWithProgramsOutputs env outputs) := by
  refine OnlyDiagnostics.bind (OnlyDiagnostics.forM (fun group => ?_) _)
    fun _ => onlyDiagnostics_ofExcept _
  exact (onlyDiagnostics_extractGroupOutputs group).bind fun _ => onlyDiagnostics_pure ()

/-- Behind a computation that only writes diagnostics, the calls are those of the rest. -/
theorem examVariants_of_bind {α β : Type} {x : Effectful α} {f : α → Effectful β} {group : Group}
    {m : JMap ProgramId EvaluatedProgramTemplate} (hx : OnlyDiagnostics x)
    (h : .examVariants group m ∈ (x >>= f).effects) :
    ∃ a, x.result = .ok a ∧ .examVariants group m ∈ (f a).effects := by
  rcases (Effectful.mem_effects_bind x f _).mp h with h | h
  · obtain ⟨diagnostic, heq⟩ := hx _ h
    cases heq
  · exact h

/-- For a group, the command line makes exams from the right map only. -/
theorem evaluated_generateAllExamVariantsOfGroup
    (hload : loadProgramTemplates env = .ok programTemplates) (houtputs : IsOutputs env outputs)
    {group group' : Group} (hgroup : IsGroup group) {m : JMap ProgramId EvaluatedProgramTemplate}
    (h : .examVariants group' m
      ∈ (generateAllExamVariantsOfGroup env programTemplates outputs group).effects) :
    group' = group ∧ IsEvaluated env group m := by
  obtain ⟨groupOutputs, hextract, h⟩ :=
    examVariants_of_bind (onlyDiagnostics_extractGroupOutputs group) h
  obtain ⟨evaluated, hevaluated, h⟩ := examVariants_of_bind (onlyDiagnostics_evaluated _) h
  obtain ⟨_, -, h⟩ := examVariants_of_bind onlyDiagnostics_generateFilesWithProgramsOutputs h
  obtain ⟨rfl, rfl⟩ := examVariants_of_mem_effects h
  exact ⟨rfl, isEvaluated_of_extractGroupOutputs hload houtputs hgroup hextract
    (lookup_evaluated hevaluated)⟩

/-- For a group, the command line makes exams unless it throws. -/
theorem examVariants_generateAllExamVariantsOfGroup {group : Group}
    (h : (generateAllExamVariantsOfGroup env programTemplates outputs group).result = .ok ()) :
    ∃ m, .examVariants group m
        ∈ (generateAllExamVariantsOfGroup env programTemplates outputs group).effects
      ∧ (generateExamVariantsForGroup env m group).result = .ok () := by
  obtain ⟨groupOutputs, hextract, h⟩ := (Effectful.bind_ok_iff _ _ _).mp h
  obtain ⟨evaluated, hevaluated, h⟩ := (Effectful.bind_ok_iff _ _ _).mp h
  obtain ⟨_, hfiles, h⟩ := (Effectful.bind_ok_iff _ _ _).mp h
  refine ⟨evaluated, ?_, h⟩
  refine (Effectful.mem_effects_bind _ _ _).mpr (.inr ⟨groupOutputs, hextract, ?_⟩)
  refine (Effectful.mem_effects_bind _ _ _).mpr (.inr ⟨evaluated, hevaluated, ?_⟩)
  refine (Effectful.mem_effects_bind _ _ _).mpr (.inr ⟨_, hfiles, ?_⟩)
  exact (Effectful.mem_effects_bind _ _ _).mpr (.inl List.mem_cons_self)

end

/-! ### The whole command line -/

/-- The command line runs all programs before it makes an exam. -/
theorem evaluated_generateAllExamVariants {group : Group}
    {m : JMap ProgramId EvaluatedProgramTemplate}
    (h : .examVariants group m ∈ (generateAllExamVariants env).effects) :
    IsGroup group ∧ IsEvaluated env group m := by
  obtain ⟨programTemplates, hload, h⟩ := examVariants_of_bind (onlyDiagnostics_ofExcept _) h
  obtain ⟨compilerOutputs, hcompile, h⟩ :=
    examVariants_of_bind (onlyDiagnostics_compileProgramTemplates _ _) h
  obtain ⟨processOutputs, hrun, h⟩ := examVariants_of_bind (onlyDiagnostics_runPrograms _) h
  have houtputs := isOutputs_extractStandardOutputs
    (isTable_runPrograms (isTable_compileProgramTemplates hload hcompile) hrun)
  -- the loop over the two groups
  rcases (Effectful.mem_effects_bind _ _ _).mp h with h | ⟨_, -, h⟩
  · obtain ⟨rfl, hevaluated⟩ :=
      evaluated_generateAllExamVariantsOfGroup hload houtputs (.inl rfl) h
    exact ⟨.inl rfl, hevaluated⟩
  · rcases (Effectful.mem_effects_bind _ _ _).mp h with h | ⟨_, -, h⟩
    · obtain ⟨rfl, hevaluated⟩ :=
        evaluated_generateAllExamVariantsOfGroup hload houtputs (.inr rfl) h
      exact ⟨.inr rfl, hevaluated⟩
    · cases h

/-- Unless it throws, the command line has run all programs and made the exams of both groups. -/
theorem generateAllExamVariants_ok (h : (generateAllExamVariants env).result = .ok ()) :
    (∃ programTemplates, loadProgramTemplates env = .ok programTemplates) ∧ ProgramsRun env
    ∧ ∀ group, IsGroup group → ∃ m, .examVariants group m ∈ (generateAllExamVariants env).effects
      ∧ (generateExamVariantsForGroup env m group).result = .ok () := by
  obtain ⟨programTemplates, hload, h⟩ := (Effectful.bind_ok_iff _ _ _).mp h
  obtain ⟨compilerOutputs, hcompile, h⟩ := (Effectful.bind_ok_iff _ _ _).mp h
  obtain ⟨processOutputs, hrun, h⟩ := (Effectful.bind_ok_iff _ _ _).mp h
  have houtputs := isOutputs_extractStandardOutputs
    (isTable_runPrograms (isTable_compileProgramTemplates hload hcompile) hrun)
  refine ⟨⟨programTemplates, hload⟩, houtputs.programsRun, ?_⟩
  -- the loop over the two groups has ended without an exception
  obtain ⟨_, hA, h⟩ := (Effectful.bind_ok_iff _ _ _).mp h
  obtain ⟨_, hB, -⟩ := (Effectful.bind_ok_iff _ _ _).mp h
  have hcalled : ∀ {effect}, effect ∈ (generateAllExamVariantsFrom env programTemplates
      (extractStandardOutputs processOutputs)).effects →
      effect ∈ (generateAllExamVariants env).effects := by
    intro effect heffect
    refine (Effectful.mem_effects_bind _ _ _).mpr (.inr ⟨programTemplates, hload, ?_⟩)
    refine (Effectful.mem_effects_bind _ _ _).mpr (.inr ⟨compilerOutputs, hcompile, ?_⟩)
    exact (Effectful.mem_effects_bind _ _ _).mpr (.inr ⟨processOutputs, hrun, heffect⟩)
  rintro group (rfl | rfl)
  · obtain ⟨m, hm, hok⟩ := examVariants_generateAllExamVariantsOfGroup hA
    exact ⟨m, hcalled ((Effectful.mem_effects_bind _ _ _).mpr (.inl hm)), hok⟩
  · obtain ⟨m, hm, hok⟩ := examVariants_generateAllExamVariantsOfGroup hB
    refine ⟨m, hcalled ((Effectful.mem_effects_bind _ _ _).mpr (.inr ⟨_, hA, ?_⟩)), hok⟩
    exact (Effectful.mem_effects_bind _ _ _).mpr (.inl hm)

/-! ### Exams of equal maps -/

section

variable {m m' : JMap ProgramId EvaluatedProgramTemplate}

/-- What a placeholder is filled with depends on what is found in the exam only. -/
theorem contentForPlaceholder_congr {toLowerCase : JString → JString} {exam exam' : Exam}
    (hgroup : exam.group = exam'.group)
    (h : ∀ programId, exam.examProgramMap.lookup programId = exam'.examProgramMap.lookup programId)
    (placeholder : Placeholder) (variant : ExamVariant) :
    contentForPlaceholder toLowerCase placeholder exam variant
      = contentForPlaceholder toLowerCase placeholder exam' variant := by
  unfold contentForPlaceholder
  simp only [hgroup, h]

theorem fillPlaceholders_congr {toLowerCase : JString → JString} {exam exam' : Exam}
    (hgroup : exam.group = exam'.group)
    (h : ∀ programId, exam.examProgramMap.lookup programId = exam'.examProgramMap.lookup programId)
    (placeholderRefs : List PlaceholderRef) (variant : ExamVariant) :
    fillPlaceholders toLowerCase placeholderRefs exam variant
      = fillPlaceholders toLowerCase placeholderRefs exam' variant := by
  unfold fillPlaceholders fillPlaceholder
  simp only [contentForPlaceholder_congr hgroup h]

/-- Equal maps make equal exams. -/
theorem generateExamVariantForGroup_congr
    (h : ∀ programId, m.lookup programId = m'.lookup programId) (group : Group)
    (variant : ExamVariant) :
    generateExamVariantForGroup env m group variant
      = generateExamVariantForGroup env m' group variant := by
  have hexam : ∀ programId, (buildExamModel m group variant).examProgramMap.lookup programId
      = (buildExamModel m' group variant).examProgramMap.lookup programId := by
    intro programId
    unfold buildExamModel
    simp only [lookup_mapMapByValue, h]
  have hgroup : (buildExamModel m group variant).group
      = (buildExamModel m' group variant).group := rfl
  unfold generateExamVariantForGroup
  simp only [fillPlaceholders_congr hgroup hexam]

theorem generateExamVariantsForGroup_ok_congr
    (h : ∀ programId, m.lookup programId = m'.lookup programId) {group : Group}
    (hok : (generateExamVariantsForGroup env m group).result = .ok ()) :
    (generateExamVariantsForGroup env m' group).result = .ok () := by
  obtain ⟨_, -, hok⟩ := (Effectful.bind_ok_iff _ _ _).mp hok
  simp only [generateExamVariantForGroup_congr h] at hok
  exact (Effectful.bind_ok_iff _ _ _).mpr ⟨(), rfl, hok⟩

end

/-! ### The graphical interface -/

/-- When the documents of a group are made, every program has an output. -/
theorem evaluatedProgramTemplateMap_ok {group : Group}
    {programPipelineMap : JMap ProgramId ProgramPipeline}
    {processOutputs : JMap ProgramId ProcessOutput}
    (hpipelines : IsPipelines env programPipelineMap)
    (hprocess : IsProcessOutputs env group processOutputs) :
    ∃ evaluated, evaluatedProgramTemplateMap programPipelineMap processOutputs = .ok evaluated := by
  apply mapToMapM_ok
  intro programId hkey
  obtain ⟨processOutput, houtput⟩ : ∃ processOutput,
      processOutputs.lookup programId = some processOutput := by
    rwa [← Option.isSome_iff_exists, AList.lookup_isSome]
  obtain ⟨programTemplate, hloaded⟩ := ((hprocess.1 _ _).mp houtput).loaded
  have hpipeline := (hpipelines programId _).mpr ⟨programTemplate, hloaded, rfl⟩
  rw [hpipeline, houtput]
  exact ⟨_, rfl⟩

theorem ProgramsRun.exitsWithZero (h : ProgramsRun env) : ExitsWithZero env := by
  rw [exitsWithZero_iff]
  intro programId group hgroup hnull
  obtain ⟨programTemplate, hloaded⟩ := hnull.loaded
  obtain ⟨processOutput, hprocess⟩ := h programId programTemplate group hloaded hgroup
  have heq := hnull.unique hprocess
  cases heq

/-- Where the command line does not throw, no task fails. -/
theorem not_taskFails (h : (generateAllExamVariants env).result = .ok ()) : ¬ TaskFails env := by
  obtain ⟨⟨programTemplates, hload⟩, hprograms, hexams⟩ := generateAllExamVariants_ok h
  rintro ⟨supplier, e, hdue, hfails⟩
  have hno_error : ∀ value, (runSupplier env supplier).result ≠ .ok value := by
    rw [hfails]
    nofun
  cases supplier with
  | loadProgramTemplates => exact hno_error programTemplates hload
  | compileProgramTemplate programId programTemplate group =>
    obtain ⟨processOutput, compilerOutput, ⟨programTemplate', hloaded, hcompile⟩, -⟩ :=
      hprograms programId programTemplate group hdue.1 hdue.2
    rw [hloaded.unique hdue.1] at hcompile
    exact hno_error compilerOutput hcompile
  | runProgram programId compilerOutput group =>
    obtain ⟨hcompiler, hgroup⟩ := hdue
    obtain ⟨programTemplate, hloaded, -⟩ := id hcompiler
    obtain ⟨processOutput, compilerOutput', hcompiler', hrun⟩ :=
      hprograms programId programTemplate group hloaded hgroup
    rw [hcompiler'.unique hcompiler] at hrun
    exact hno_error (some processOutput) hrun
  | generateExamVariants group programPipelineMap processOutputs =>
    obtain ⟨hgroup, hpipelines, hprocess⟩ := hdue
    obtain ⟨evaluated, hevaluated⟩ := evaluatedProgramTemplateMap_ok hpipelines hprocess
    -- the command line has made the exams of the group from the same map
    obtain ⟨m, hm, hok⟩ := hexams group hgroup
    have hsame := (evaluated_generateAllExamVariants hm).2.lookup_eq
      (isEvaluated_evaluatedProgramTemplateMap hpipelines hprocess hevaluated)
    refine hno_error () ((Effectful.bind_ok_iff _ _ _).mpr ⟨evaluated, hevaluated, ?_⟩)
    exact generateExamVariantsForGroup_ok_congr hsame hok

/-- `generateExamVariantsForGroup` is called for the group. -/
def CalledFor (effects : List Effect) (group : Group) : Prop :=
  ∃ m, .examVariants group m ∈ effects

/-- Where the command line does not throw, a task makes the exams of both groups. -/
theorem calledFor_of_quiescent (hreachable : (projectTask env).Reachable newProjectTask s)
    (hquiescent : (projectTask env).Quiescent s)
    (h : (generateAllExamVariants env).result = .ok ()) {group : Group} (hgroup : IsGroup group) :
    CalledFor s.world.effects group := by
  have hinv := reachable_inv hreachable
  have hexception : s.world.promiseContext.exception = none := by
    by_contra hsome
    exact not_taskFails h (hinv.failed (Option.isSome_iff_ne_none.mpr hsome)).1
  have hexits := (generateAllExamVariants_ok h).2.1.exitsWithZero
  have hdocuments : s.outcome (.documents group) = some (.ok ()) :=
    hinv.resolved _ _ (hinv.documentsGenerated hquiescent hexception hexits hgroup)
  exact (hinv.resolved _ _ hdocuments).2

/-- **The command line and the graphical interface make the same exams.**  In every run and for
every group, what `generateExamVariantsForGroup` is called with on one way is what it is called
with on the other; and if the command line does not throw, both call it for both groups, the
graphical interface in every complete run. -/
theorem examVariants_agree (hreachable : (projectTask env).Reachable newProjectTask s) :
    (∀ group m m', .examVariants group m ∈ (generateAllExamVariants env).effects →
      .examVariants group m' ∈ s.world.effects →
      ∀ programId, m.lookup programId = m'.lookup programId)
    ∧ ((generateAllExamVariants env).result = .ok () → (projectTask env).Quiescent s →
      ∀ group, (CalledFor (generateAllExamVariants env).effects group
          ↔ group = Group.A ∨ group = Group.B)
        ∧ (CalledFor s.world.effects group ↔ group = Group.A ∨ group = Group.B)) := by
  have hinv := reachable_inv hreachable
  constructor
  · intro group m m' hm hm'
    have hevaluated := (evaluated_generateAllExamVariants hm).2
    exact hevaluated.lookup_eq (hinv.evaluated group m' hm').2
  · intro hok hquiescent group
    constructor
    · constructor
      · rintro ⟨m, hm⟩
        exact (evaluated_generateAllExamVariants hm).1
      · intro hgroup
        obtain ⟨m, hm, -⟩ := (generateAllExamVariants_ok hok).2.2 group hgroup
        exact ⟨m, hm⟩
    · constructor
      · rintro ⟨m, hm⟩
        exact (hinv.evaluated group m hm).1
      · exact calledFor_of_quiescent hreachable hquiescent hok

/-- The groups that `generateExamVariantsForGroup` is called for. -/
def calledGroups (effects : List Effect) : List Group :=
  effects.filterMap fun effect =>
    match effect with
    | .examVariants group _ => some group
    | _ => none

theorem mem_calledGroups {effects : List Effect} {group : Group} :
    group ∈ calledGroups effects ↔ CalledFor effects group := by
  unfold calledGroups CalledFor
  rw [List.mem_filterMap]
  constructor
  · rintro ⟨effect, heffect, hgroup⟩
    cases effect with
    | examVariants group' m =>
      cases hgroup
      exact ⟨m, heffect⟩
    | diagnostic => cases hgroup
    | document => cases hgroup
  · rintro ⟨m, hm⟩
    exact ⟨_, hm, rfl⟩

/-- A program that exits with status 0. -/
theorem examVariants_agree_example :
    ∃ m m', .examVariants Group.A m ∈ (generateAllExamVariants (oneProgramEnvironment 0)).effects
      ∧ .examVariants Group.A m' ∈ (oneProgramRun 0).world.effects
      ∧ ∀ programId, m.lookup programId = m'.lookup programId := by
  have hok : (generateAllExamVariants (oneProgramEnvironment 0)).result = .ok () := by
    decide +kernel
  have hquiescent : (projectTask (oneProgramEnvironment 0)).Quiescent (oneProgramRun 0) := by
    decide +kernel
  obtain ⟨hmaps, hgroups⟩ := examVariants_agree (reachable_oneProgramRun 0)
  obtain ⟨hcommandLine, hgraphical⟩ := hgroups hok hquiescent Group.A
  obtain ⟨m, hm⟩ := hcommandLine.mpr (.inl rfl)
  obtain ⟨m', hm'⟩ := hgraphical.mpr (.inl rfl)
  exact ⟨m, m', hm, hm', hmaps Group.A m m' hm hm'⟩

/-- The same workspace without `template.odt`. -/
def noTemplateEnvironment : Environment :=
  { oneProgramEnvironment 0 with loadDocument := .error .ioException }

/-- Without `template.odt` the command line stops at the first group, and the graphical interface,
where the other group is on its way by then, does not. -/
theorem called_for_different_groups :
    (∃ programTemplate, Loaded noTemplateEnvironment ⟨1⟩ programTemplate)
    ∧ ProgramsRun noTemplateEnvironment
    ∧ ∃ s, (projectTask noTemplateEnvironment).Reachable newProjectTask s
      ∧ (projectTask noTemplateEnvironment).Quiescent s
      ∧ ¬ CalledFor (generateAllExamVariants noTemplateEnvironment).effects Group.B
      ∧ CalledFor s.world.effects Group.B := by
  refine ⟨⟨_, _, rfl, rfl⟩, ?_, (projectTask noTemplateEnvironment).runFirst 60 newProjectTask,
    System.reachable_runFirst 60, by decide +kernel, ?_, ?_⟩
  · intro programId programTemplate group hloaded _
    exact ⟨⟨[jstr "ok"], [], 0⟩, ⟨[], some ⟨.ok ⟨[jstr "ok"], [], 0⟩⟩⟩,
      ⟨programTemplate, hloaded, rfl⟩, rfl⟩
  · rw [← mem_calledGroups]
    decide +kernel
  · rw [← mem_calledGroups]
    decide +kernel

end ExamGeneratorNg
