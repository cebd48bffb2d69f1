import ExamGeneratorNg.Equiv.ProgramTemplateLoading
import ExamGeneratorNg.Equiv.TaskOutcome
import ExamGeneratorNg.Ui.Programs
import Mathlib.Data.List.Sort

/-!
# What a `ProjectTask` shows is right

At any time of any run, `getPrograms` shows no programs yet, or all programs of the workspace in
their order, each with the source that is compiled; and of what a program has written it shows
nothing yet, or all of it (`getPrograms_always`).  At the end nothing is missing
(`getPrograms_of_quiescent`).
-/

namespace ExamGeneratorNg.Ui

open Promise

variable {env : Environment} {s : TaskState} {observables : Observables}

/-! ### Observables and promises -/

/-- The observables that have a value have that of their promises. -/
structure Observables.Follows (observables : Observables) (s : TaskState) : Prop where
  programPipelineMap : ∀ programPipelineMap,
    observables.programPipelineMap = some programPipelineMap →
      s.outcome .programPipelines = some (.ok programPipelineMap)
  stdout : ∀ ref processOutput, observables.stdout ref = some processOutput →
    s.outcome (.processOutput ref.1 ref.2) = some (.ok (some processOutput))
  stderr : ∀ ref processOutput, observables.stderr ref = some processOutput →
    s.outcome (.processOutput ref.1 ref.2) = some (.ok (some processOutput))

/-- Every observable whose promise is resolved has been set. -/
structure Observables.UpToDate (observables : Observables) (s : TaskState) : Prop
    extends observables.Follows s where
  programPipelineMap_set : ∀ programPipelineMap,
    s.outcome .programPipelines = some (.ok programPipelineMap) →
      observables.programPipelineMap = some programPipelineMap
  stdout_set : ∀ ref processOutput,
    s.outcome (.processOutput ref.1 ref.2) = some (.ok (some processOutput)) →
      observables.stdout ref = some processOutput
  stderr_set : ∀ ref processOutput,
    s.outcome (.processOutput ref.1 ref.2) = some (.ok (some processOutput)) →
      observables.stderr ref = some processOutput

/-- The observables when all have been set. -/
def observablesOf (s : TaskState) : Observables where
  programPipelineMap := valueOf s .programPipelines
  stdout ref := (valueOf s (.processOutput ref.1 ref.2)).join
  stderr ref := (valueOf s (.processOutput ref.1 ref.2)).join

theorem valueOf_eq_some_iff {ref : PromiseRef} {value : ref.Value} :
    valueOf s ref = some value ↔ s.outcome ref = some (.ok value) := by
  unfold valueOf
  rcases s.outcome ref with _ | e | value' <;> simp

theorem upToDate_observablesOf (s : TaskState) : (observablesOf s).UpToDate s where
  programPipelineMap _ h := valueOf_eq_some_iff.mp h
  stdout _ _ h := valueOf_eq_some_iff.mp (Option.join_eq_some_iff.mp h)
  stderr _ _ h := valueOf_eq_some_iff.mp (Option.join_eq_some_iff.mp h)
  programPipelineMap_set _ h := valueOf_eq_some_iff.mpr h
  stdout_set _ _ h := Option.join_eq_some_iff.mpr (valueOf_eq_some_iff.mpr h)
  stderr_set _ _ h := Option.join_eq_some_iff.mpr (valueOf_eq_some_iff.mpr h)

variable (env)

/-- What is shown of the lines a program has written: nothing, or all of them. -/
def IsShown (programId : ProgramId) (group : Group) (lines : ProcessOutput → List JString)
    (shown : JString) : Prop :=
  shown = [] ∨ ∃ processOutput, IsProcessOutput env programId group (some processOutput)
    ∧ shown = joinLines (lines processOutput)

/-- All lines that a program has written are shown; nothing, if it has failed. -/
def IsFullyShown (programId : ProgramId) (group : Group) (lines : ProcessOutput → List JString)
    (shown : JString) : Prop :=
  ∃ processOutput, IsProcessOutput env programId group processOutput
    ∧ shown = (processOutput.map fun y => joinLines (lines y)).getD []

/-- A program as it is shown: both groups of a program of the workspace, with the lines that are
compiled, and of its outputs what `IsOutput` says. -/
structure IsProgram
    (IsOutput : ProgramId → Group → (ProcessOutput → List JString) → JString → Prop)
    (program : Program) (programTemplate : ProgramTemplate) : Prop where
  loaded : Loaded env program.programId programTemplate
  groups : ∀ group, (∃ groupProgram, program.groupPrograms.lookup group = some groupProgram)
    ↔ IsGroup group
  groupPrograms : ∀ group groupProgram,
    program.groupPrograms.lookup group = some groupProgram →
      groupProgram.programId = program.programId
      ∧ groupProgram.programTemplate = programTemplate
      ∧ groupProgram.sourceCode
        = joinLines (realizeProgramTemplate programTemplate .compiler group).lines
      ∧ IsOutput program.programId group ProcessOutput.standardOutput groupProgram.stdout
      ∧ IsOutput program.programId group ProcessOutput.errorOutput groupProgram.stderr

variable {env}

/-! ### One program -/

theorem lookup_pipelineOf (programId : ProgramId) (programTemplate : ProgramTemplate)
    (group : Group) :
    (pipelineOf programId programTemplate).groupPipelineMap.lookup group
      = if group = Group.A ∨ group = Group.B then
          some ⟨programTemplate, (programId, group), (programId, group)⟩
        else none := by
  have hne : Group.A ≠ Group.B := by decide
  unfold pipelineOf
  dsimp only
  by_cases hB : group = Group.B
  · subst hB
    rw [AList.lookup_insert, if_pos (.inr rfl)]
  · rw [AList.lookup_insert_ne hB]
    by_cases hA : group = Group.A
    · subst hA
      rw [AList.lookup_insert, if_pos (.inl rfl)]
    · rw [AList.lookup_insert_ne hA, if_neg (by simp [hA, hB])]
      rfl

theorem isProgram_buildProgram
    {IsOutput : ProgramId → Group → (ProcessOutput → List JString) → JString → Prop}
    {programId : ProgramId} {programTemplate : ProgramTemplate}
    (hloaded : Loaded env programId programTemplate)
    (hstdout : ∀ group, IsGroup group → IsOutput programId group ProcessOutput.standardOutput
      (((observables.stdout (programId, group)).map fun y => joinLines y.standardOutput).getD []))
    (hstderr : ∀ group, IsGroup group → IsOutput programId group ProcessOutput.errorOutput
      (((observables.stderr (programId, group)).map fun y => joinLines y.errorOutput).getD [])) :
    IsProgram env IsOutput
      (buildProgram observables programId (pipelineOf programId programTemplate))
      programTemplate := by
  have hlookup : ∀ group,
      (buildProgram observables programId
        (pipelineOf programId programTemplate)).groupPrograms.lookup group
      = if group = Group.A ∨ group = Group.B then
          some (buildGroupProgram observables programId programTemplate group (programId, group))
        else none := by
    intro group
    unfold buildProgram
    dsimp only
    rw [lookup_mapMapByEntry, lookup_pipelineOf]
    split_ifs <;> rfl
  refine ⟨hloaded, fun group => ?_, fun group groupProgram h => ?_⟩
  · rw [hlookup, ← Option.isSome_iff_exists]
    unfold IsGroup
    split_ifs with hgroup <;> simp [hgroup]
  · rw [hlookup] at h
    split_ifs at h with hgroup
    obtain rfl := Option.some.inj h
    exact ⟨rfl, rfl, rfl, hstdout group hgroup, hstderr group hgroup⟩

/-! ### All programs -/

/-- The programs of a workspace are the first ones, for some number of them. -/
theorem perm_loadedIds (hreads : ReadsOrIoException env) :
    (loadedIds env).Perm ((List.range (loadedIds env).length).map ProgramId.fromIndex) := by
  obtain ⟨k, -, programTemplates, hload, hread, -, hlookup⟩ := exists_readable_programs hreads
  have hperm : (loadedIds env).Perm ((List.range k).map ProgramId.fromIndex) := by
    rw [List.perm_ext_iff_of_nodup isKeys_loadedIds.1
      (List.nodup_range.map fromIndex_injective)]
    intro programId
    rw [isKeys_loadedIds.2, List.mem_map]
    constructor
    · rintro ⟨programTemplate, hloaded⟩
      obtain ⟨i, hi, rfl, -⟩ := (hlookup _ _).mp ((loaded_iff hload _ _).mp hloaded)
      exact ⟨i, List.mem_range.mpr hi, rfl⟩
    · rintro ⟨i, hi, rfl⟩
      obtain ⟨programTemplate, hparse⟩ := hread i (List.mem_range.mp hi)
      refine ⟨programTemplate, (loaded_iff hload _ _).mpr ((hlookup _ _).mpr ?_)⟩
      exact ⟨i, List.mem_range.mp hi, rfl, hparse⟩
  have hlength : (loadedIds env).length = k := by
    rw [hperm.length_eq, List.length_map, List.length_range]
  rwa [hlength]

/-- Sorting the pipelines by their ids gives the programs in the order of the workspace. -/
theorem map_fst_mergeSort (hreads : ReadsOrIoException env)
    {programPipelineMap : JMap ProgramId ProgramPipeline}
    (hpipelines : IsPipelines env programPipelineMap) :
    (programPipelineMap.entries.mergeSort fun e e' => e.1.id ≤ e'.1.id).map Sigma.fst
      = (List.range (loadedIds env).length).map ProgramId.fromIndex := by
  have hsorted : (programPipelineMap.entries.mergeSort fun e e' => e.1.id ≤ e'.1.id).Pairwise
      fun e e' => decide (e.1.id ≤ e'.1.id) :=
    List.pairwise_mergeSort (fun _ _ _ h h' => by simp only [decide_eq_true_eq] at *; omega)
      (fun _ _ => by simp only [Bool.or_eq_true, decide_eq_true_eq]; omega) _
  have hids : ((programPipelineMap.entries.mergeSort fun e e' => e.1.id ≤ e'.1.id).map
      Sigma.fst).Pairwise fun programId programId' => programId.id ≤ programId'.id := by
    rw [List.pairwise_map]
    exact hsorted.imp fun h => of_decide_eq_true h
  have hrange : ((List.range (loadedIds env).length).map ProgramId.fromIndex).Pairwise
      fun programId programId' => programId.id ≤ programId'.id := by
    rw [List.pairwise_map]
    exact List.pairwise_lt_range.imp fun hlt => Nat.succ_le_succ hlt.le
  have hkeys := (isKeys_of_isPipelines hpipelines).perm isKeys_loadedIds
  refine List.Perm.eq_of_pairwise ?_ hids hrange ?_
  · rintro ⟨id⟩ ⟨id'⟩ - - hle hle'
    exact congrArg ProgramId.mk (Nat.le_antisymm hle hle')
  · exact (((List.mergeSort_perm _ _).map Sigma.fst).trans hkeys).trans (perm_loadedIds hreads)

/-- What is shown when the programs are shown. -/
theorem getPrograms_spec (hreads : ReadsOrIoException env)
    {IsOutput : ProgramId → Group → (ProcessOutput → List JString) → JString → Prop}
    {programPipelineMap : JMap ProgramId ProgramPipeline}
    (hmap : observables.programPipelineMap = some programPipelineMap)
    (hpipelines : IsPipelines env programPipelineMap)
    (hstdout : ∀ programId programTemplate group, Loaded env programId programTemplate →
      IsGroup group → IsOutput programId group ProcessOutput.standardOutput
        (((observables.stdout (programId, group)).map fun y => joinLines y.standardOutput).getD []))
    (hstderr : ∀ programId programTemplate group, Loaded env programId programTemplate →
      IsGroup group → IsOutput programId group ProcessOutput.errorOutput
        (((observables.stderr (programId, group)).map fun y => joinLines y.errorOutput).getD [])) :
    (getPrograms observables).map Program.programId
      = (List.range (loadedIds env).length).map ProgramId.fromIndex
    ∧ ∀ program ∈ getPrograms observables, ∃ programTemplate,
      IsProgram env IsOutput program programTemplate := by
  unfold getPrograms
  rw [hmap, Option.map_some, Option.getD_some]
  constructor
  · rw [List.map_map, ← map_fst_mergeSort hreads hpipelines]
    rfl
  · intro program hprogram
    obtain ⟨entry, hentry, rfl⟩ := List.mem_map.mp hprogram
    have hmem : entry ∈ programPipelineMap.entries :=
      (List.mergeSort_perm _ _).mem_iff.mp hentry
    obtain ⟨programTemplate, hloaded, hpipeline⟩ :=
      (hpipelines _ _).mp (AList.mem_lookup_iff.mpr hmem)
    rw [hpipeline]
    exact ⟨programTemplate, isProgram_buildProgram hloaded
      (fun group hgroup => hstdout _ _ group hloaded hgroup)
      fun group hgroup => hstderr _ _ group hloaded hgroup⟩

/-! ### At any time, and at the end -/

/-- What an observable of an output shows. -/
theorem isShown_of_follows (hreachable : (projectTask env).Reachable newProjectTask s)
    {ref : ProgramId × Group} {value : Option ProcessOutput}
    (hvalue : ∀ processOutput, value = some processOutput →
      s.outcome (.processOutput ref.1 ref.2) = some (.ok (some processOutput)))
    (lines : ProcessOutput → List JString) :
    IsShown env ref.1 ref.2 lines ((value.map fun y => joinLines (lines y)).getD []) := by
  cases value with
  | none => exact .inl rfl
  | some processOutput =>
    obtain ⟨past, hpast⟩ := hreachable.history
    have hprocess := (inv_of_history hpast).resolved _ _ (hvalue processOutput rfl)
    exact .inr ⟨processOutput, hprocess, rfl⟩

/-- An observable that is up to date has what its promise was resolved with. -/
theorem eq_of_upToDate {ref : ProgramId × Group} {value processOutput : Option ProcessOutput}
    (hfollows : ∀ y, value = some y →
      s.outcome (.processOutput ref.1 ref.2) = some (.ok (some y)))
    (hset : ∀ y, s.outcome (.processOutput ref.1 ref.2) = some (.ok (some y)) → value = some y)
    (houtcome : s.outcome (.processOutput ref.1 ref.2) = some (.ok processOutput)) :
    value = processOutput := by
  cases value with
  | some y =>
    have heq := (hfollows y rfl).symm.trans houtcome
    exact Except.ok.inj (Option.some.inj heq)
  | none =>
    cases processOutput with
    | none => rfl
    | some y => exact hset y houtcome

/-- **What is shown is right at any time**: in every state of every run, and however late the
observables are set, no programs are shown yet, or all programs of the workspace in their order and
nothing else: for both groups, the source that is compiled, and of each output of the program
nothing yet or all of it. -/
theorem getPrograms_always (hreads : ReadsOrIoException env)
    (hreachable : (projectTask env).Reachable newProjectTask s)
    (hfollows : observables.Follows s) :
    getPrograms observables = []
    ∨ (getPrograms observables).map Program.programId
        = (List.range (loadedIds env).length).map ProgramId.fromIndex
      ∧ ∀ program ∈ getPrograms observables, ∃ programTemplate,
        IsProgram env (IsShown env) program programTemplate := by
  cases hmap : observables.programPipelineMap with
  | none =>
    left
    unfold getPrograms
    rw [hmap]
    rfl
  | some programPipelineMap =>
    right
    obtain ⟨past, hpast⟩ := hreachable.history
    have hpipelines :=
      ((inv_of_history hpast).resolved _ _ (hfollows.programPipelineMap _ hmap)).1
    refine getPrograms_spec hreads hmap hpipelines ?_ ?_
    · intro programId programTemplate group _ _
      exact isShown_of_follows hreachable (hfollows.stdout (programId, group)) _
    · intro programId programTemplate group _ _
      exact isShown_of_follows hreachable (hfollows.stderr (programId, group)) _

theorem readsOrIoException_oneProgram : ReadsOrIoException (oneProgramEnvironment 0) := by
  intro path e h
  unfold oneProgramEnvironment at h
  dsimp only at h
  split_ifs at h
  exact (Except.error.inj h).symm

/-- Observables of which one has not been set yet. -/
def lateObservables : Observables :=
  { observablesOf (oneProgramRun 0) with
    stdout := fun ref =>
      if ref.2 = Group.B then none else (observablesOf (oneProgramRun 0)).stdout ref }

/-- A program whose output is shown for one group only. -/
theorem getPrograms_always_example :
    (getPrograms lateObservables).map Program.programId = [ProgramId.fromIndex 0]
    ∧ ∀ program ∈ getPrograms lateObservables, ∃ programTemplate,
      IsProgram (oneProgramEnvironment 0) (IsShown (oneProgramEnvironment 0)) program
        programTemplate := by
  have hfollows := (upToDate_observablesOf (oneProgramRun 0)).toFollows
  have hlate : lateObservables.Follows (oneProgramRun 0) := by
    refine ⟨hfollows.programPipelineMap, fun ref processOutput h => ?_, hfollows.stderr⟩
    unfold lateObservables at h
    dsimp only at h
    split_ifs at h
    exact hfollows.stdout ref processOutput h
  rcases getPrograms_always readsOrIoException_oneProgram (reachable_oneProgramRun 0) hlate with
    hnone | ⟨hids, hprograms⟩
  · have hlength : (getPrograms lateObservables).length = 1 := by decide +kernel
    rw [hnone] at hlength
    cases hlength
  · exact ⟨hids.trans (by decide +kernel), hprograms⟩

/-- **At the end nothing is missing**: when a task that has succeeded has come to its end, and the
observables have been set, all programs of the workspace are shown, with all that they have
written. -/
theorem getPrograms_of_quiescent (hreads : ReadsOrIoException env)
    (hreachable : (projectTask env).Reachable newProjectTask s)
    (hquiescent : (projectTask env).Quiescent s) (hstate : getState s = .succeeded)
    (hupToDate : observables.UpToDate s) :
    (getPrograms observables).map Program.programId
      = (List.range (loadedIds env).length).map ProgramId.fromIndex
    ∧ ∀ program ∈ getPrograms observables, ∃ programTemplate,
      IsProgram env (IsFullyShown env) program programTemplate := by
  obtain ⟨past, hpast⟩ := hreachable.history
  have hexception : s.world.promiseContext.exception = none := by
    by_contra hfailed
    rw [getState_eq, if_neg hfailed] at hstate
    cases hstate
  have h : Complete env past s := ⟨hpast, hquiescent, hexception⟩
  obtain ⟨programPipelineMap, hvalue⟩ :=
    h.exists_value id (h.inv.started .programPipelines trivial)
  refine getPrograms_spec hreads (hupToDate.programPipelineMap_set _ hvalue)
    (h.inv.resolved _ _ hvalue).1 ?_ ?_
  · intro programId programTemplate group hloaded hgroup
    obtain ⟨processOutput, houtcome, hprocess⟩ := h.processOutput hloaded hgroup
    rw [eq_of_upToDate (hupToDate.stdout _) (hupToDate.stdout_set _) houtcome]
    exact ⟨processOutput, hprocess, rfl⟩
  · intro programId programTemplate group hloaded hgroup
    obtain ⟨processOutput, houtcome, hprocess⟩ := h.processOutput hloaded hgroup
    rw [eq_of_upToDate (hupToDate.stderr _) (hupToDate.stderr_set _) houtcome]
    exact ⟨processOutput, hprocess, rfl⟩

/-- A program that exits with status 0. -/
theorem getPrograms_of_quiescent_example :
    (getPrograms (observablesOf (oneProgramRun 0))).map Program.programId
      = (List.range (loadedIds (oneProgramEnvironment 0)).length).map ProgramId.fromIndex :=
  (getPrograms_of_quiescent readsOrIoException_oneProgram (reachable_oneProgramRun 0)
    quiescent_oneProgramRun getState_oneProgramRun (upToDate_observablesOf _)).1

end ExamGeneratorNg.Ui
