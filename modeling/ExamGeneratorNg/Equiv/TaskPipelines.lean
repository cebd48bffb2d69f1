import ExamGeneratorNg.Equiv.TaskInvariant

/-!
# The code of the pipelines

The code that builds the graph of promises keeps the invariant, and everything it returns is on
its way (`triple_programPipelines`, `triple_examPipeline`).
-/

namespace ExamGeneratorNg

open Promise Stateful

variable {env : Environment} {hole : Option PromiseRef} {s s' : TaskState}

/-! ### Loops over maps -/

/-- A loop over the entries of a map whose mapper gives what `f` does. -/
theorem triple_mapMapByEntryM {K V₁ V₂ σ : Type} [DecidableEq K] {R : σ → Prop}
    {I : List (Entry K V₁) → σ → Prop} {f : Entry K V₁ → V₂} {inputMap : JMap K V₁}
    {valueMapper : Entry K V₁ → Code σ JavaException V₂}
    (h : ∀ passed, ∀ entry ∈ inputMap.entries, Triple (I passed) (valueMapper entry)
      (fun value s => value = f entry ∧ I (passed ++ [entry]) s) R) :
    Triple (I []) (mapMapByEntryM inputMap valueMapper)
      (fun outputMap s => outputMap = mapMapByEntry inputMap f ∧ I inputMap.entries s) R := by
  have hloop := triple_foldlM inputMap.entries (R := R)
    (I := fun passed outputMap s => outputMap = passed.foldl (fun outputMap entry =>
      outputMap.insert entry.1 (f entry)) (∅ : JMap K V₂) ∧ I passed s)
    (f := fun outputMap entry => do
      let value ← valueMapper entry
      pure (outputMap.insert entry.1 value)) ?_ ∅
  · exact triple_weaken (fun s hs => ⟨rfl, hs⟩) (fun _ _ hs => hs) hloop
  · intro passed outputMap entry hentry
    refine triple_and fun houtput => ?_
    refine triple_bind (h passed entry hentry) fun value => ?_
    refine triple_and fun hvalue => ?_
    apply triple_pure
    intro s hs
    refine ⟨?_, hs⟩
    rw [houtput, hvalue, List.foldl_append, List.foldl_cons, List.foldl_nil]

/-! ### The code of the pipelines -/

section

variable (env hole)

/-- The invariant, and that some promises are on their way. -/
def Knows (live : Set PromiseRef) (s : TaskState) : Prop :=
  Inv env hole s ∧ ∀ ref ∈ live, Live env none s ref

/-- What holds when code has thrown. -/
def Thrown (s : TaskState) : Prop := Inv env hole s ∧ ∀ ref, hole = some ref → Excused env s ref

end

variable {live : Set PromiseRef}

/-- Promises that are on their way without the one being taken care of are on their way. -/
theorem live_of_live_none {ref : PromiseRef} (h : Live env none s ref) : Live env hole s ref := by
  rcases h with h | h
  · cases h
  · exact .inr h

theorem Knows.mono {live' : Set PromiseRef} (h : live' ⊆ live) (hs : Knows env hole live s) :
    Knows env hole live' s :=
  ⟨hs.1, fun ref href => hs.2 ref (h href)⟩

theorem triple_supplyAsync {supplier : Supplier} (hdue : Due env supplier) :
    Triple (Knows env hole live) (supplyAsync supplier)
      (fun _ => Knows env hole (insert supplier.promise live)) (Thrown env hole) := by
  refine triple_bind (triple_get (Q := fun s₀ s => s₀ = s ∧ Knows env hole live s)
    fun s hs => ⟨rfl, hs⟩) fun s₀ => ?_
  refine triple_bind (triple_liftExcept _ (Q := fun _ => Knows env hole live) ?_ ?_) fun _ => ?_
  · rintro _ - s ⟨-, hs⟩
    exact hs
  · rintro e he s ⟨heq, hs, -⟩
    subst heq
    -- the check fails only if some task has failed
    have hexception : s₀.world.promiseContext.exception.isSome := by
      by_contra hnone
      have hnone : s₀.world.promiseContext.exception = none := by simpa using hnone
      simp [checkState, PromiseContext.getException, hnone] at he
    exact ⟨hs, fun ref _ => .inr ⟨(hs.failed hexception).1, .inl hexception⟩⟩
  · apply triple_modify
    rintro s ⟨hs, hlive⟩
    refine ⟨hs.supply hdue, ?_⟩
    rintro ref (rfl | href)
    · exact live_supply supplier
    · exact (grows_supply supplier).live (hlive ref href)

theorem triple_register {callback : Callback} (hsource : callback.source ∈ live)
    (hok : CallbackOk env callback)
    (hcollect : ∀ group keys key, callback ≠ .collect group keys key) :
    Triple (Knows env hole live) (register callback)
      (fun _ => Knows env hole {ref | callback.target = some ref ∨ ref ∈ live})
      (Thrown env hole) := by
  apply triple_modify
  rintro s ⟨hs, hlive⟩
  refine ⟨hs.registerAll ?_, ?_⟩
  · intro callback' hcallback'
    rw [List.mem_singleton] at hcallback'
    subst hcallback'
    refine ⟨live_of_live_none (hlive _ hsource), hok, ?_⟩
    intro group keys key heq
    exact absurd heq (hcollect group keys key)
  · rintro ref (htarget | href)
    · exact .inr (.inr (.inr ⟨callback, List.mem_append_right _ List.mem_cons_self, htarget⟩))
    · exact (grows_registerAll [callback]).live (hlive ref href)

theorem triple_groupPipeline {programId : ProgramId} {programTemplate : ProgramTemplate}
    {group : Group} (hloaded : Loaded env programId programTemplate) (hgroup : IsGroup group) :
    Triple (Knows env hole live) (groupPipeline programId programTemplate group)
      (fun groupPipeline s =>
        groupPipeline = ⟨programTemplate, (programId, group), (programId, group)⟩
        ∧ Knows env hole (insert (.processOutput programId group) live) s)
      (Thrown env hole) := by
  refine triple_bind (triple_supplyAsync ⟨hloaded, hgroup⟩) fun _ => ?_
  refine triple_bind (triple_register (Set.mem_insert _ _) hgroup nofun) fun _ => ?_
  apply triple_pure
  intro s hs
  refine ⟨rfl, hs.mono ?_⟩
  rintro ref (rfl | href)
  · exact .inl rfl
  · exact .inr (.inr href)

theorem triple_programPipeline {programId : ProgramId} {programTemplate : ProgramTemplate}
    (hloaded : Loaded env programId programTemplate) :
    Triple (Knows env hole live) (programPipeline programId programTemplate)
      (fun programPipeline s => programPipeline = pipelineOf programId programTemplate
        ∧ Knows env hole ({ref | ∃ group, IsGroup group ∧ ref = .processOutput programId group}
          ∪ live) s)
      (Thrown env hole) := by
  refine triple_bind (triple_groupPipeline hloaded (.inl rfl)) fun groupPipelineA => ?_
  refine triple_and fun hA => ?_
  refine triple_bind (triple_groupPipeline hloaded (.inr rfl)) fun groupPipelineB => ?_
  refine triple_and fun hB => ?_
  apply triple_pure
  intro s hs
  constructor
  · rw [hA, hB]
    rfl
  · refine hs.mono ?_
    rintro ref (⟨group, rfl | rfl, rfl⟩ | href)
    · exact .inr (.inl rfl)
    · exact .inl rfl
    · exact .inr (.inr href)

theorem triple_programPipelines {programTemplates : JMap ProgramId ProgramTemplate}
    (hload : loadProgramTemplates env = .ok programTemplates) :
    Triple (Knows env hole ∅)
      (mapMapByEntryM programTemplates fun entry => programPipeline entry.1 entry.2)
      (fun programPipelines s => IsPipelines env programPipelines
        ∧ Knows env hole {ref | ∃ programId programTemplate group,
          Loaded env programId programTemplate ∧ IsGroup group
            ∧ ref = .processOutput programId group} s)
      (Thrown env hole) := by
  -- the promises of the programs that have been passed are on their way
  let livePassed (passed : List (Entry ProgramId ProgramTemplate)) : Set PromiseRef :=
    {ref | ∃ entry ∈ passed, ∃ group, IsGroup group ∧ ref = .processOutput entry.1 group}
  have hentry : ∀ entry ∈ programTemplates.entries, Loaded env entry.1 entry.2 := by
    intro entry hentry
    exact (loaded_iff hload entry.1 entry.2).mpr (AList.mem_lookup_iff.mpr hentry)
  have hstep : ∀ passed, ∀ entry ∈ programTemplates.entries,
      Triple (Knows env hole (livePassed passed)) (programPipeline entry.1 entry.2)
        (fun programPipeline s => programPipeline = pipelineOf entry.1 entry.2
          ∧ Knows env hole (livePassed (passed ++ [entry])) s) (Thrown env hole) := by
    intro passed entry hmem
    refine triple_weaken (fun _ h => h) ?_ (triple_programPipeline (hentry entry hmem))
    rintro programPipeline s ⟨hpipeline, hs⟩
    refine ⟨hpipeline, hs.mono ?_⟩
    rintro ref ⟨entry', hmem', group, hgroup, rfl⟩
    rcases List.mem_append.mp hmem' with hmem' | hmem'
    · exact .inr ⟨entry', hmem', group, hgroup, rfl⟩
    · rw [List.mem_singleton] at hmem'
      exact .inl ⟨group, hgroup, by rw [hmem']⟩
  refine triple_weaken ?_ ?_ (triple_mapMapByEntryM hstep)
  · intro s hs
    exact hs.mono (by rintro ref ⟨entry, hmem, -⟩; cases hmem)
  · rintro programPipelines s ⟨rfl, hs⟩
    constructor
    · intro programId programPipeline
      rw [lookup_mapMapByEntry, Option.map_eq_some_iff]
      simp only [loaded_iff hload, eq_comm]
    · refine hs.mono ?_
      rintro ref ⟨programId, programTemplate, group, hloaded, hgroup, rfl⟩
      have hmem := AList.mem_lookup_iff.mp ((loaded_iff hload _ _).mp hloaded)
      exact ⟨⟨programId, programTemplate⟩, hmem, group, hgroup, rfl⟩

theorem triple_factoryAll {group : Group} {keys : List ProgramId} (hkeys : IsKeys env keys)
    (hlive : ∀ key ∈ keys, .entry group key ∈ live) :
    Triple (Knows env hole live) (factoryAll group keys)
      (fun _ => Knows env hole {.entries group}) (Thrown env hole) := by
  unfold factoryAll
  split
  · -- there is nothing to wait for
    rename_i hnil
    subst hnil
    apply triple_modify
    rintro s ⟨hs, -⟩
    constructor
    · exact hs.settle_ok ⟨hkeys, nofun⟩
    · rintro ref rfl
      exact .inr (.inl (s.settle_outcome_isSome _ _))
  · rename_i hcons
    apply triple_modify
    rintro s ⟨hs, hs'⟩
    obtain ⟨key, hkey⟩ := List.exists_mem_of_ne_nil keys hcons
    constructor
    · apply hs.registerAll
      intro callback hcallback
      obtain ⟨key, hkey, rfl⟩ := List.mem_map.mp hcallback
      refine ⟨live_of_live_none (hs' _ (hlive key hkey)), hkeys, ?_⟩
      rintro group' keys' key' ⟨⟩ key'' hkey''
      exact List.mem_map_of_mem hkey''
    · rintro ref rfl
      refine .inr (.inr (.inr ⟨.collect group keys key, ?_, rfl⟩))
      exact List.mem_append_right _ (List.mem_map_of_mem hkey)

theorem triple_all {group : Group} {inputMap : JMap ProgramId (ProgramId × Group)}
    (hgroup : IsGroup group) (hkeys : IsKeys env inputMap.keys)
    (hinput : ∀ entry ∈ inputMap.entries, entry.2 = (entry.1, group)
      ∧ .processOutput entry.1 group ∈ live) :
    Triple (Knows env hole live) (all group inputMap)
      (fun _ => Knows env hole {.processOutputs group}) (Thrown env hole) := by
  -- the promises of the entries that have been passed are on their way
  have hstep : ∀ passed, ∀ entry ∈ inputMap.entries,
      Triple (Knows env hole (live ∪ {ref | ∃ entry ∈ passed, ref = .entry group entry.1}))
        (register (.entry group entry.1 entry.2))
        (fun _ => Knows env hole
          (live ∪ {ref | ∃ entry' ∈ passed ++ [entry], ref = .entry group entry'.1}))
        (Thrown env hole) := by
    intro passed entry hentry
    obtain ⟨hvalue, hlive⟩ := hinput entry hentry
    refine triple_weaken (fun _ h => h) (fun _ s hs => hs.mono ?_)
      (triple_register (by rw [hvalue]; exact .inl hlive) hvalue nofun)
    rintro ref (href | ⟨entry', hentry', rfl⟩)
    · exact .inr (.inl href)
    · rcases List.mem_append.mp hentry' with hentry' | hentry'
      · exact .inr (.inr ⟨entry', hentry', rfl⟩)
      · rw [List.mem_singleton] at hentry'
        exact .inl (by rw [hentry']; rfl)
  refine triple_bind (triple_weaken ?_ (fun _ _ hs => hs) (triple_forM hstep)) fun _ => ?_
  · intro s hs
    refine hs.mono ?_
    rintro ref (href | ⟨entry, hmem, -⟩)
    · exact href
    · cases hmem
  · refine triple_bind (triple_factoryAll hkeys ?_) fun _ => ?_
    · intro key hkey
      obtain ⟨entry, hentry, rfl⟩ := List.mem_map.mp hkey
      exact .inr ⟨entry, hentry, rfl⟩
    · refine triple_weaken (fun _ h => h) (fun _ s hs => hs.mono ?_)
        (triple_register (Set.mem_singleton _) hgroup nofun)
      rintro ref rfl
      exact .inl rfl

theorem lookup_pipelineOf (programId : ProgramId) (programTemplate : ProgramTemplate)
    {group : Group} (hgroup : IsGroup group) :
    (pipelineOf programId programTemplate).groupPipelineMap.lookup group
      = some ⟨programTemplate, (programId, group), (programId, group)⟩ := by
  rcases hgroup with rfl | rfl
  · unfold pipelineOf
    rw [AList.lookup_insert_ne (by decide), AList.lookup_insert]
  · unfold pipelineOf
    rw [AList.lookup_insert]

/-- The promises of the process outputs of a group are those of the programs of the workspace. -/
theorem lookup_processOutputPromises {programPipelines : JMap ProgramId ProgramPipeline}
    (hpipelines : IsPipelines env programPipelines) (group : Group) (programId : ProgramId)
    (promise : ProgramId × Group) :
    (mapMapByEntry programPipelines fun entry => (entry.1, group)).lookup programId = some promise
      ↔ (∃ programTemplate, Loaded env programId programTemplate)
        ∧ promise = (programId, group) := by
  rw [lookup_mapMapByEntry, Option.map_eq_some_iff]
  constructor
  · rintro ⟨programPipeline, hpipeline, rfl⟩
    obtain ⟨programTemplate, hloaded, -⟩ := (hpipelines _ _).mp hpipeline
    exact ⟨⟨programTemplate, hloaded⟩, rfl⟩
  · rintro ⟨⟨programTemplate, hloaded⟩, rfl⟩
    exact ⟨_, (hpipelines _ _).mpr ⟨programTemplate, hloaded, rfl⟩, rfl⟩

theorem isKeys_processOutputPromises {programPipelines : JMap ProgramId ProgramPipeline}
    (hpipelines : IsPipelines env programPipelines) (group : Group) :
    IsKeys env (mapMapByEntry programPipelines fun entry => (entry.1, group)).keys := by
  refine ⟨AList.keys_nodup _, fun programId => ?_⟩
  rw [← AList.mem_keys, ← AList.lookup_isSome, Option.isSome_iff_exists]
  simp only [lookup_processOutputPromises hpipelines]
  constructor
  · rintro ⟨promise, hloaded, -⟩
    exact hloaded
  · intro hloaded
    exact ⟨_, hloaded, rfl⟩

/-- `processOutputPromise` finds the group in every pipeline. -/
theorem triple_processOutputPromise {group : Group}
    {programPipelines : JMap ProgramId ProgramPipeline} (hgroup : IsGroup group)
    (hpipelines : IsPipelines env programPipelines) {entry : Entry ProgramId ProgramPipeline}
    (hentry : entry ∈ programPipelines.entries) :
    Triple (Knows env hole live) (processOutputPromise group entry.2)
      (fun promise s => promise = (entry.1, group) ∧ Knows env hole live s) (Thrown env hole) := by
  obtain ⟨programTemplate, -, hpipeline⟩ :=
    (hpipelines entry.1 entry.2).mp (AList.mem_lookup_iff.mpr hentry)
  unfold processOutputPromise
  rw [hpipeline, lookup_pipelineOf _ _ hgroup]
  exact triple_pure _ fun s hs => ⟨rfl, hs⟩

theorem triple_examPipeline {group : Group} {programPipelines : JMap ProgramId ProgramPipeline}
    (hgroup : IsGroup group) (hpipelines : IsPipelines env programPipelines)
    (hlive : ∀ programId programTemplate, Loaded env programId programTemplate →
      .processOutput programId group ∈ live) :
    Triple (Knows env hole live) (examPipeline programPipelines group)
      (fun _ => Knows env hole {.documentsGenerated group}) (Thrown env hole) := by
  have hpromises := triple_mapMapByEntryM (I := fun _ => Knows env hole live)
    (R := Thrown env hole) (f := fun entry => (entry.1, group)) fun _ _ hentry =>
      triple_processOutputPromise hgroup hpipelines hentry
  refine triple_bind hpromises fun processOutputPromises => ?_
  refine triple_and fun heq => ?_
  have hkeys : IsKeys env processOutputPromises.keys := by
    rw [heq]
    exact isKeys_processOutputPromises hpipelines group
  refine triple_bind (triple_all hgroup hkeys ?_) fun _ => ?_
  · intro entry hmem
    have hlookup := AList.mem_lookup_iff.mpr hmem
    rw [heq] at hlookup
    obtain ⟨⟨programTemplate, hloaded⟩, hpromise⟩ :=
      (lookup_processOutputPromises hpipelines group entry.1 entry.2).mp hlookup
    exact ⟨hpromise, hlive _ _ hloaded⟩
  · refine triple_bind (triple_register (Set.mem_singleton _) ⟨hgroup, hpipelines⟩ nofun)
      fun _ => ?_
    apply triple_pure
    intro s hs
    refine hs.mono ?_
    rintro ref rfl
    exact .inl rfl

end ExamGeneratorNg
