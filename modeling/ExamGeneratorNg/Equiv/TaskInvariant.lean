import ExamGeneratorNg.Equiv.ProgramRunning
import ExamGeneratorNg.Promise.Lemmas
import ExamGeneratorNg.Ui.ProjectTask

/-!
# The invariant of a project task

`Inv` is what holds in every state a `ProjectTask` can reach: every promise that is resolved has
the value it stands for (`Resolved`), every promise a callback waits for is on its way, and a
promise is rejected only if a task has failed, which is or will be reported, or if a program has
not exited with status 0.

Each operation of the user interface keeps `Inv` (`Inv.settle_ok`, `Inv.supply`, …).
-/

namespace ExamGeneratorNg

open Promise

/-- The groups of an exam. -/
def IsGroup (group : Group) : Prop := group = Group.A ∨ group = Group.B

section

variable (env : Environment)

/-! ### What the promises stand for -/

/-- The pipelines of a program. -/
def pipelineOf (programId : ProgramId) (programTemplate : ProgramTemplate) : ProgramPipeline where
  programTemplate := programTemplate
  groupPipelineMap :=
    ((∅ : JMap Group GroupPipeline).insert Group.A
      ⟨programTemplate, (programId, Group.A), (programId, Group.A)⟩).insert Group.B
      ⟨programTemplate, (programId, Group.B), (programId, Group.B)⟩

/-- The pipelines of all programs of the workspace. -/
def IsPipelines (programPipelineMap : JMap ProgramId ProgramPipeline) : Prop :=
  ∀ programId programPipeline, programPipelineMap.lookup programId = some programPipeline
    ↔ ∃ programTemplate, Loaded env programId programTemplate
      ∧ programPipeline = pipelineOf programId programTemplate

/-- The programs of the workspace, each once. -/
def IsKeys (keys : List ProgramId) : Prop :=
  keys.Nodup ∧ ∀ programId, programId ∈ keys
    ↔ ∃ programTemplate, Loaded env programId programTemplate

/-- The outputs of all programs for a group, some of which may be `null`. -/
def IsEntries (group : Group) (entries : List (Entry ProgramId (Option ProcessOutput))) : Prop :=
  IsKeys env entries.keys ∧ ∀ entry ∈ entries, IsProcessOutput env entry.1 group entry.2

/-- The outputs of all programs for a group, none of which is `null`. -/
def IsProcessOutputs (group : Group) (processOutputs : JMap ProgramId ProcessOutput) : Prop :=
  (∀ programId processOutput, processOutputs.lookup programId = some processOutput
    ↔ IsProcessOutput env programId group (some processOutput))
  ∧ ∀ programId programTemplate, Loaded env programId programTemplate →
    ∃ processOutput, processOutputs.lookup programId = some processOutput

/-- What is known when a promise is resolved, where `live` are the promises on their way. -/
def Resolved (live : PromiseRef → Prop) (s : TaskState) : (ref : PromiseRef) → ref.Value → Prop
  | .programTemplates, programTemplates => loadProgramTemplates env = .ok programTemplates
  | .programPipelines, programPipelines =>
    IsPipelines env programPipelines
      ∧ ∀ programId programTemplate group, Loaded env programId programTemplate →
        IsGroup group → live (.processOutput programId group)
  | .examPipeline group, _ => live (.documentsGenerated group)
  | .compilerOutput programId group, compilerOutput =>
    IsCompilerOutput env programId group compilerOutput
  | .runOutput programId group, processOutput => IsProcessOutput env programId group processOutput
  | .processOutput programId group, processOutput =>
    IsProcessOutput env programId group processOutput
  | .entry group key, entry => entry.1 = key ∧ IsProcessOutput env key group entry.2
  | .entries group, entries => IsEntries env group entries
  | .processOutputs group, processOutputs => IsProcessOutputs env group processOutputs
  | .documents group, _ =>
    (∃ processOutputs, IsProcessOutputs env group processOutputs)
      ∧ ∃ programTemplateMap, .examVariants group programTemplateMap ∈ s.world.effects
  | .documentsGenerated group, _ => s.outcome (.documents group) = some (.ok ())

/-! ### What the callbacks and the tasks rely on -/

/-- What is known of the data a callback has captured. -/
def CallbackOk : Callback → Prop
  | .examPipeline group => IsGroup group
  | .runProgram _ group => IsGroup group
  | .entry group key valuePromise => valuePromise = (key, group)
  | .collect _ keys _ => IsKeys env keys
  | .processOutputs group => IsGroup group
  | .documentsGenerated group programPipelineMap =>
    IsGroup group ∧ IsPipelines env programPipelineMap
  | .exception ref => ∃ supplier : Supplier, ref = supplier.promise
  | _ => True

/-- The tasks that are started for the workspace. -/
def Due : Supplier → Prop
  | .loadProgramTemplates => True
  | .compileProgramTemplate programId programTemplate group =>
    Loaded env programId programTemplate ∧ IsGroup group
  | .runProgram programId compilerOutput group =>
    IsCompilerOutput env programId group compilerOutput ∧ IsGroup group
  | .generateExamVariants group programPipelineMap processOutputs =>
    IsGroup group ∧ IsPipelines env programPipelineMap ∧ IsProcessOutputs env group processOutputs

/-- Some task of the workspace fails. -/
def TaskFails : Prop :=
  ∃ supplier e, Due env supplier ∧ (runSupplier env supplier).result = .error e

/-- The failure of a task has been reported, or will be by a callback. -/
def Reported (s : TaskState) : Prop :=
  s.world.promiseContext.exception.isSome
    ∨ ∃ ref e, s.outcome ref = some (.error e) ∧ .exception ref ∈ s.callbacks

/-- The promises that are rejected if an output of a program is `null`. -/
def DependsOnOutputs : PromiseRef → Prop
  | .processOutputs _ => True
  | .documentsGenerated _ => True
  | _ => False

/-- Why a promise is rejected. -/
def Excused (s : TaskState) (ref : PromiseRef) : Prop :=
  (DependsOnOutputs ref ∧ ¬ ExitsWithZero env) ∨ (TaskFails env ∧ Reported s)

/-! ### The invariant -/

/-- The promises on their way. -/
abbrev Live (hole : Option PromiseRef) (s : TaskState) (ref : PromiseRef) : Prop :=
  (projectTask env).Live hole s ref

/-- The promises that `mainPipeline` is to settle. -/
def IsStarted : PromiseRef → Prop
  | .programPipelines => True
  | .examPipeline group => IsGroup group
  | _ => False

/-- What holds in every state, where the promise `hole` is being taken care of. -/
structure Inv (hole : Option PromiseRef) (s : TaskState) : Prop where
  started : ∀ ref, IsStarted ref → Live env hole s ref
  /-- every callback waits for a promise on its way -/
  waiting : ∀ callback ∈ s.callbacks, Live env hole s callback.source
  callbackOk : ∀ callback ∈ s.callbacks, CallbackOk env callback
  /-- `factory.all` waits for every promise that it has no value of yet -/
  collecting : ∀ group keys key, .collect group keys key ∈ s.callbacks → ∀ key' ∈ keys,
    (valueOf s (.entry group key')).isSome ∨ (s.outcome (.entries group)).isSome
      ∨ .collect group keys key' ∈ s.callbacks
  due : ∀ supplier ∈ s.tasks, Due env supplier
  /-- the failure of a task will be reported -/
  reporting : ∀ supplier ∈ s.tasks, s.outcome supplier.promise = none →
    .exception supplier.promise ∈ s.callbacks
  resolved : ∀ ref value, s.outcome ref = some (.ok value) →
    Resolved env (Live env hole s) s ref value
  rejected : ∀ ref e, s.outcome ref = some (.error e) → Excused env s ref
  /-- an exception in the `PromiseContext` is that of a task -/
  failed : s.world.promiseContext.exception.isSome →
    TaskFails env ∧ ∃ (supplier : Supplier) (e : JavaException),
      s.outcome supplier.promise = some (.error e)
  /-- exams are made from the right maps -/
  evaluated : ∀ group programTemplateMap,
    .examVariants group programTemplateMap ∈ s.world.effects →
      IsGroup group ∧ IsEvaluated env group programTemplateMap

end

variable {env : Environment} {hole : Option PromiseRef} {s s' : TaskState}

/-! ### States that grow -/

/-- Nothing that is known in the first state is lost in the second. -/
structure Grows (s s' : TaskState) : Prop where
  outcome : ∀ ref r, s.outcome ref = some r → s'.outcome ref = some r
  callbacks : s.callbacks ⊆ s'.callbacks
  tasks : s.tasks ⊆ s'.tasks
  effects : s.world.effects ⊆ s'.world.effects
  exception : s.world.promiseContext.exception.isSome → s'.world.promiseContext.exception.isSome

theorem Grows.isSome (h : Grows s s') {ref : PromiseRef} (href : (s.outcome ref).isSome) :
    (s'.outcome ref).isSome := by
  obtain ⟨r, hr⟩ := Option.isSome_iff_exists.mp href
  rw [h.outcome ref r hr]
  rfl

theorem Grows.live (h : Grows s s') {ref : PromiseRef} (href : Live env hole s ref) :
    Live env hole s' ref :=
  href.mono h.isSome h.callbacks h.tasks

theorem valueOf_eq_some_iff {ref : PromiseRef} {value : ref.Value} :
    valueOf s ref = some value ↔ s.outcome ref = some (.ok value) := by
  unfold valueOf
  split
  · rename_i value' h
    simp [h]
  · rename_i h
    constructor
    · nofun
    · intro hvalue
      exact absurd hvalue (h value)

theorem Grows.valueOf (h : Grows s s') {ref : PromiseRef} (href : (valueOf s ref).isSome) :
    (ExamGeneratorNg.valueOf s' ref).isSome := by
  obtain ⟨value, hvalue⟩ := Option.isSome_iff_exists.mp href
  have houtcome := h.outcome ref _ (valueOf_eq_some_iff.mp hvalue)
  rw [valueOf_eq_some_iff.mpr houtcome]
  rfl

theorem Grows.excused (h : Grows s s') {ref : PromiseRef} (hs : Excused env s ref) :
    Excused env s' ref := by
  rcases hs with hs | ⟨hfails, hs | ⟨ref, e, href, hcallback⟩⟩
  · exact .inl hs
  · exact .inr ⟨hfails, .inl (h.exception hs)⟩
  · exact .inr ⟨hfails, .inr ⟨ref, e, h.outcome ref _ href, h.callbacks hcallback⟩⟩

/-- What is known of the value of a promise stays known. -/
theorem Resolved.mono {live live' : PromiseRef → Prop} {ref : PromiseRef} {value : ref.Value}
    (hlive : ∀ ref, live ref → live' ref)
    (houtcome : ∀ ref r, s.outcome ref = some r → s'.outcome ref = some r)
    (heffects : s.world.effects ⊆ s'.world.effects) (h : Resolved env live s ref value) :
    Resolved env live' s' ref value := by
  cases ref with
  | programPipelines =>
    exact ⟨h.1, fun programId programTemplate group hloaded hgroup =>
      hlive _ (h.2 programId programTemplate group hloaded hgroup)⟩
  | examPipeline group => exact hlive _ h
  | documents group =>
    obtain ⟨hprocessOutputs, programTemplateMap, heffect⟩ := h
    exact ⟨hprocessOutputs, programTemplateMap, heffects heffect⟩
  | documentsGenerated group => exact houtcome _ _ h
  | _ => exact h

/-- The invariant is kept by a state that grows, if what is new in it is in order. -/
theorem Inv.grow (h : Inv env hole s) (hgrows : Grows s s')
    (hcallbacks : ∀ callback ∈ s'.callbacks, callback ∈ s.callbacks ∨
      (Live env hole s' callback.source ∧ CallbackOk env callback
        ∧ ∀ group keys key, callback = .collect group keys key →
          ∀ key' ∈ keys, .collect group keys key' ∈ s'.callbacks))
    (htasks : ∀ supplier ∈ s'.tasks, supplier ∈ s.tasks ∨
      (Due env supplier ∧ .exception supplier.promise ∈ s'.callbacks))
    (houtcome : ∀ ref r, s'.outcome ref = some r → s.outcome ref = some r ∨
      ((∀ value, r = .ok value → Resolved env (Live env hole s') s' ref value)
        ∧ ∀ e, r = .error e → Excused env s' ref))
    (hfailed : s'.world.promiseContext.exception.isSome →
      s.world.promiseContext.exception.isSome ∨ (TaskFails env
        ∧ ∃ (supplier : Supplier) (e : JavaException),
          s'.outcome supplier.promise = some (.error e)))
    (hevaluated : ∀ group programTemplateMap,
      .examVariants group programTemplateMap ∈ s'.world.effects →
        .examVariants group programTemplateMap ∈ s.world.effects ∨
          (IsGroup group ∧ IsEvaluated env group programTemplateMap)) :
    Inv env hole s' where
  started ref href := hgrows.live (h.started ref href)
  waiting callback hcallback := by
    rcases hcallbacks callback hcallback with hold | hnew
    · exact hgrows.live (h.waiting callback hold)
    · exact hnew.1
  callbackOk callback hcallback := by
    rcases hcallbacks callback hcallback with hold | hnew
    · exact h.callbackOk callback hold
    · exact hnew.2.1
  collecting group keys key hcallback key' hkey' := by
    rcases hcallbacks _ hcallback with hold | hnew
    · rcases h.collecting group keys key hold key' hkey' with hvalue | hentries | hcollect
      · exact .inl (hgrows.valueOf hvalue)
      · exact .inr (.inl (hgrows.isSome hentries))
      · exact .inr (.inr (hgrows.callbacks hcollect))
    · exact .inr (.inr (hnew.2.2 group keys key rfl key' hkey'))
  due supplier hsupplier := by
    rcases htasks supplier hsupplier with hold | hnew
    · exact h.due supplier hold
    · exact hnew.1
  reporting supplier hsupplier hpending := by
    rcases htasks supplier hsupplier with hold | hnew
    · apply hgrows.callbacks
      apply h.reporting supplier hold
      by_contra hsettled
      have hsettled := hgrows.isSome (Option.isSome_iff_ne_none.mpr hsettled)
      rw [hpending] at hsettled
      cases hsettled
    · exact hnew.2
  resolved ref value hvalue := by
    rcases houtcome ref _ hvalue with hold | hnew
    · exact (h.resolved ref value hold).mono (fun _ => hgrows.live) hgrows.outcome hgrows.effects
    · exact hnew.1 value rfl
  rejected ref e he := by
    rcases houtcome ref _ he with hold | hnew
    · exact hgrows.excused (h.rejected ref e hold)
    · exact hnew.2 e rfl
  failed hexception := by
    rcases hfailed hexception with hold | hnew
    · obtain ⟨hfails, supplier, e, he⟩ := h.failed hold
      exact ⟨hfails, supplier, e, hgrows.outcome _ _ he⟩
    · exact hnew
  evaluated group programTemplateMap heffect := by
    rcases hevaluated group programTemplateMap heffect with hold | hnew
    · exact h.evaluated group programTemplateMap hold
    · exact hnew

/-! ### The operations of the user interface -/

theorem grows_settle (ref : PromiseRef) (r : Except JavaException ref.Value) :
    Grows s (s.settle ref r) where
  outcome _ _ h := s.settle_outcome_of_some h
  callbacks := by simp
  tasks := by simp
  effects := by simp
  exception := by simp

theorem Inv.settle (h : Inv env hole s) {ref : PromiseRef} {r : Except JavaException ref.Value}
    (hvalue : ∀ value, r = .ok value → Resolved env (Live env hole s) s ref value)
    (herror : ∀ e, r = .error e → s.outcome ref = none → Excused env (s.settle ref r) ref) :
    Inv env hole (s.settle ref r) := by
  cases hs : s.outcome ref with
  | some r' =>
    -- a promise that is settled stays as it is
    rwa [s.settle_of_some hs]
  | none =>
    have hgrows := grows_settle (s := s) ref r
    refine h.grow hgrows ?_ ?_ ?_ ?_ ?_
    · simp only [State.settle_callbacks]
      exact fun callback hcallback => .inl hcallback
    · simp only [State.settle_tasks]
      exact fun supplier hsupplier => .inl hsupplier
    · intro ref' r' hr'
      rcases s.settle_outcome_cases hr' with hold | ⟨rfl, hnew⟩
      · exact .inl hold
      · subst hnew
        refine .inr ⟨?_, fun e he => herror e he hs⟩
        intro value hr
        exact (hvalue value hr).mono (fun _ => hgrows.live) hgrows.outcome hgrows.effects
    · simp only [State.settle_world]
      exact fun hexception => .inl hexception
    · simp only [State.settle_world]
      exact fun group programTemplateMap heffect => .inl heffect

theorem Inv.settle_ok (h : Inv env hole s) {ref : PromiseRef} {value : ref.Value}
    (hvalue : Resolved env (Live env hole s) s ref value) :
    Inv env hole (s.settle ref (.ok value)) :=
  h.settle (by rintro _ ⟨⟩; exact hvalue) nofun

theorem Inv.settle_error (h : Inv env hole s) {ref : PromiseRef} {e : JavaException}
    (he : Excused env s ref) : Inv env hole (s.settle ref (.error e)) :=
  h.settle nofun fun _ _ _ => (grows_settle ref _).excused he

theorem grows_registerAll (callbacks : List Callback) : Grows s (s.registerAll callbacks) where
  outcome _ _ h := h
  callbacks := by simp
  tasks := by simp
  effects := by simp
  exception := by simp

theorem Inv.registerAll (h : Inv env hole s) {callbacks : List Callback}
    (hcallbacks : ∀ callback ∈ callbacks, Live env hole s callback.source ∧ CallbackOk env callback
      ∧ ∀ group keys key, callback = .collect group keys key →
        ∀ key' ∈ keys, .collect group keys key' ∈ callbacks) :
    Inv env hole (s.registerAll callbacks) := by
  have hgrows := grows_registerAll (s := s) callbacks
  refine h.grow hgrows ?_ (fun _ h => .inl h) (fun _ _ h => .inl h)
    (fun h => .inl h) (fun _ _ h => .inl h)
  intro callback hcallback
  rcases List.mem_append.mp hcallback with hold | hnew
  · exact .inl hold
  · obtain ⟨hlive, hok, hcollect⟩ := hcallbacks callback hnew
    refine .inr ⟨hgrows.live hlive, hok, ?_⟩
    intro group keys key heq key' hkey'
    exact List.mem_append_right _ (hcollect group keys key heq key' hkey')

/-- `supplyAsync` without its check. -/
abbrev supply (supplier : Supplier) (s : TaskState) : TaskState :=
  ContextState.supply Supplier.promise .workDone .exception supplier s

theorem grows_supply (supplier : Supplier) : Grows s (supply supplier s) where
  outcome _ _ h := h
  callbacks := by simp
  tasks := by simp
  effects := List.Subset.refl _
  exception := id

theorem live_supply (supplier : Supplier) : Live env hole (supply supplier s) supplier.promise := by
  exact .inr (.inr (.inl ⟨supplier, by simp, rfl⟩))

theorem Inv.supply (h : Inv env hole s) {supplier : Supplier} (hdue : Due env supplier) :
    Inv env hole (supply supplier s) := by
  refine h.grow (grows_supply supplier) ?_ ?_ (fun _ _ h => .inl h) (fun h => .inl h)
    (fun _ _ h => .inl h)
  · intro callback hcallback
    have hcallback : callback ∈ s.callbacks ∨ callback = .workDone supplier.promise
        ∨ callback = .exception supplier.promise := by
      simpa using hcallback
    rcases hcallback with hold | rfl | rfl
    · exact .inl hold
    · exact .inr ⟨live_supply supplier, trivial, nofun⟩
    · exact .inr ⟨live_supply supplier, ⟨supplier, rfl⟩, nofun⟩
  · intro supplier' hsupplier'
    have hsupplier' : supplier' ∈ s.tasks ∨ supplier' = supplier := by
      simpa using hsupplier'
    rcases hsupplier' with hold | rfl
    · exact .inl hold
    · refine .inr ⟨hdue, ?_⟩
      simp

/-- Changing the `PromiseContext` keeps the invariant, as long as an exception in it is a task's
or was there before. -/
theorem Inv.mapContext (h : Inv env hole s) {f : PromiseContext → PromiseContext}
    (hexception : s.world.promiseContext.exception.isSome →
      (f s.world.promiseContext).exception.isSome)
    (hfailed : (f s.world.promiseContext).exception.isSome →
      s.world.promiseContext.exception.isSome ∨ (TaskFails env
        ∧ ∃ (supplier : Supplier) (e : JavaException),
          s.outcome supplier.promise = some (.error e))) :
    Inv env hole (ContextState.mapContext s f) :=
  h.grow ⟨fun _ _ h => h, List.Subset.refl _, List.Subset.refl _, List.Subset.refl _, hexception⟩
    (fun _ h => .inl h) (fun _ h => .inl h) (fun _ _ h => .inl h) hfailed
    (fun _ _ h => .inl h)

/-- A callback is taken out to be called, if nobody is left waiting for what it does beside
settling its target. -/
theorem Inv.take_callback (h : Inv env none s) {callback : Callback}
    {before after : List Callback} (hcallbacks : s.callbacks = before ++ callback :: after)
    (hsource : (s.outcome callback.source).isSome)
    (hcollect : ∀ group keys key, callback = .collect group keys key →
      (valueOf s (.entry group key)).isSome ∨ (s.outcome (.entries group)).isSome)
    (hexception : ∀ ref e, callback = .exception ref → s.outcome ref = some (.error e) →
      s.world.promiseContext.exception.isSome) :
    Inv env callback.target { s with callbacks := before ++ after } := by
  have hlive : ∀ ref, Live env none s ref →
      Live env callback.target { s with callbacks := before ++ after } ref :=
    fun ref href => System.Live.take_callback hcallbacks href
  have hmem : ∀ callback' ∈ s.callbacks, callback' = callback ∨ callback' ∈ before ++ after := by
    intro callback' h'
    rw [hcallbacks] at h'
    simp only [List.mem_append, List.mem_cons] at h' ⊢
    tauto
  have hold : ∀ callback' ∈ before ++ after, callback' ∈ s.callbacks := by
    intro callback' h'
    rw [hcallbacks]
    simp only [List.mem_append, List.mem_cons] at h' ⊢
    tauto
  constructor
  case started => exact fun ref href => hlive _ (h.started ref href)
  case waiting => exact fun callback' h' => hlive _ (h.waiting callback' (hold callback' h'))
  case callbackOk => exact fun callback' h' => h.callbackOk callback' (hold callback' h')
  case collecting =>
    intro group keys key hkey key' hkey'
    rcases h.collecting group keys key (hold _ hkey) key' hkey' with hvalue | hentries | hmem'
    · exact .inl hvalue
    · exact .inr (.inl hentries)
    · rcases hmem _ hmem' with heq | hmem'
      · rcases hcollect group keys key' heq.symm with hvalue | hentries
        · exact .inl hvalue
        · exact .inr (.inl hentries)
      · exact .inr (.inr hmem')
  case due => exact h.due
  case reporting =>
    intro supplier hsupplier hpending
    rcases hmem _ (h.reporting supplier hsupplier hpending) with heq | hmem'
    · -- the callback is called after its promise is settled
      rw [← heq] at hsource
      change s.outcome supplier.promise = none at hpending
      change (s.outcome supplier.promise).isSome at hsource
      rw [hpending] at hsource
      cases hsource
    · exact hmem'
  case resolved =>
    intro ref value hvalue
    exact (h.resolved ref value hvalue).mono hlive (fun _ _ h => h) (List.Subset.refl _)
  case rejected =>
    intro ref e he
    rcases h.rejected ref e he with hnull | ⟨hfails, hreported | ⟨ref', e', href', hmem'⟩⟩
    · exact .inl hnull
    · exact .inr ⟨hfails, .inl hreported⟩
    · rcases hmem _ hmem' with heq | hmem'
      · exact .inr ⟨hfails, .inl (hexception ref' e' heq.symm href')⟩
      · exact .inr ⟨hfails, .inr ⟨ref', e', href', hmem'⟩⟩
  case failed => exact h.failed
  case evaluated => exact h.evaluated

theorem Inv.take_task (h : Inv env none s) {supplier : Supplier} {before after : List Supplier}
    (htasks : s.tasks = before ++ supplier :: after) :
    Inv env (some supplier.promise) { s with tasks := before ++ after } := by
  have hlive : ∀ ref, Live env none s ref →
      Live env (some supplier.promise) { s with tasks := before ++ after } ref :=
    fun ref href => System.Live.take_task htasks href
  have hold : ∀ supplier' ∈ before ++ after, supplier' ∈ s.tasks := by
    intro supplier' h'
    rw [htasks]
    simp only [List.mem_append, List.mem_cons] at h' ⊢
    tauto
  exact {
    started := fun ref href => hlive _ (h.started ref href)
    waiting := fun callback h' => hlive _ (h.waiting callback h')
    callbackOk := h.callbackOk
    collecting := h.collecting
    due := fun supplier' h' => h.due supplier' (hold supplier' h')
    reporting := fun supplier' h' => h.reporting supplier' (hold supplier' h')
    resolved := fun ref value hvalue =>
      (h.resolved ref value hvalue).mono hlive (fun _ _ h => h) (List.Subset.refl _)
    rejected := h.rejected
    failed := h.failed
    evaluated := h.evaluated }

/-- The promise that was being taken care of is on its way again. -/
theorem Inv.close (h : Inv env hole s) (hhole : ∀ ref, hole = some ref → Live env none s ref) :
    Inv env none s := by
  have hlive : ∀ ref, Live env hole s ref → Live env none s ref := fun ref href => href.close hhole
  exact {
    started := fun ref href => hlive _ (h.started ref href)
    waiting := fun callback h' => hlive _ (h.waiting callback h')
    callbackOk := h.callbackOk
    collecting := h.collecting
    due := h.due
    reporting := h.reporting
    resolved := fun ref value hvalue =>
      (h.resolved ref value hvalue).mono hlive (fun _ _ h => h) (List.Subset.refl _)
    rejected := h.rejected
    failed := h.failed
    evaluated := h.evaluated }

end ExamGeneratorNg
