import ExamGeneratorNg.Equiv.TaskPipelines

/-!
# Every state of a project task

Each callback and each task keeps the invariant (`inv_call`, `inv_finish`), so it holds in every
state a task can reach (`reachable_inv`).
-/

namespace ExamGeneratorNg

open Promise Stateful

variable {env : Environment} {s : TaskState}

/-! ### Calling a callback -/

/-- What holds when the body of a callback is called: its target is being taken care of. -/
abbrev BodyStarts (env : Environment) (target : PromiseRef) (s₁ s : TaskState) : Prop :=
  Inv env (some target) s ∧ s = s₁

/-- What holds when the body of a callback has ended: it has left the target to another callback,
or has a value for it. -/
def BodyDone (env : Environment) (target : PromiseRef) (result : Option target.Value)
    (s : TaskState) : Prop :=
  Inv env (some target) s ∧
    match result with
    | none => Live env none s target
    | some value => Resolved env (Live env (some target) s) s target value

/-- A promise that is settled is not being taken care of any more. -/
theorem Inv.close_settle {target : PromiseRef} {r : Except JavaException target.Value}
    (h : Inv env (some target) (s.settle target r)) : Inv env none (s.settle target r) := by
  apply h.close
  rintro ref ⟨⟩
  exact .inr (.inl (s.settle_outcome_isSome target r))

/-- What depends on an output of a program through one promise depends on it through the next. -/
theorem dependsOnOutputs_target {callback : Callback} {target : PromiseRef}
    (htarget : callback.target = some target) (hsource : DependsOnOutputs callback.source) :
    DependsOnOutputs target := by
  cases callback <;> cases htarget <;> trivial

theorem Callback.ne_exception {callback : Callback} {target : PromiseRef}
    (htarget : callback.target = some target) (ref : PromiseRef) : callback ≠ .exception ref := by
  rintro rfl
  cases htarget

section

variable {callback : Callback} {before after : List Callback} {source target : PromiseRef}

/-- A callback that is called for a rejected promise rejects its target. -/
theorem inv_callThen_error (h : Inv env none s)
    (hcallbacks : s.callbacks = before ++ callback :: after)
    (htarget : callback.target = some target)
    (hcollect : ∀ group keys key, callback = .collect group keys key → target = .entries group)
    {e : JavaException} (he : s.outcome callback.source = some (.error e)) :
    Inv env none
      (({ s with callbacks := before ++ after } : TaskState).settle target (.error e)) := by
  have hexcused : Excused env s target := by
    rcases h.rejected _ _ he with ⟨hsource, hnull⟩ | hfails
    · exact .inl ⟨dependsOnOutputs_target htarget hsource, hnull⟩
    · exact .inr hfails
  -- the target is rejected first, so that `factory.all` waits no more when the callback is taken
  have hrejected : Inv env none (s.settle target (.error e)) := h.settle_error hexcused
  have hcallbacks' : (s.settle target (.error e)).callbacks = before ++ callback :: after := by
    rw [State.settle_callbacks, hcallbacks]
  have hsettled : ((s.settle target (.error e)).outcome callback.source).isSome := by
    rw [s.settle_outcome_of_some he]
    rfl
  have htaken := hrejected.take_callback hcallbacks' hsettled ?_ ?_
  · rw [htarget] at htaken
    have hcomm : { s.settle target (.error e) with callbacks := before ++ after }
        = ({ s with callbacks := before ++ after } : TaskState).settle target (.error e) := by
      unfold State.settle
      cases s.outcome target <;> rfl
    rw [hcomm] at htaken
    exact htaken.close_settle
  · intro group keys key heq
    have htarget' := hcollect group keys key heq
    subst htarget'
    exact .inr (s.settle_outcome_isSome _ _)
  · intro ref e' heq
    exact absurd heq (Callback.ne_exception htarget ref)

/-- A callback that is called for a resolved promise keeps the invariant if its body does. -/
theorem inv_callThen_ok (h : Inv env none s)
    (hcallbacks : s.callbacks = before ++ callback :: after)
    (htarget : callback.target = some target) (hsettled : (s.outcome callback.source).isSome)
    (hcollect : ∀ group keys key, callback = .collect group keys key →
      (valueOf s (.entry group key)).isSome)
    {body : UiCode (Option target.Value)}
    (hbody : Triple (BodyStarts env target { s with callbacks := before ++ after })
      body (BodyDone env target) (Thrown env (some target))) :
    Inv env none (endThen target (body.run.run { s with callbacks := before ++ after })) := by
  have htaken := h.take_callback hcallbacks hsettled
    (fun group keys key heq => .inl (hcollect group keys key heq))
    (fun ref e heq => absurd heq (Callback.ne_exception htarget ref))
  rw [htarget] at htaken
  have hdone := hbody _ ⟨htaken, rfl⟩
  rcases hrun : body.run.run { s with callbacks := before ++ after } with ⟨e | ⟨_ | value⟩, s'⟩
  · rw [hrun] at hdone
    exact (hdone.1.settle_error (hdone.2 target rfl)).close_settle
  · rw [hrun] at hdone
    apply hdone.1.close
    rintro ref ⟨⟩
    exact hdone.2
  · rw [hrun] at hdone
    exact (hdone.1.settle_ok hdone.2).close_settle

/-- A callback that `then` has registered keeps the invariant if the body does, and leaves its
target on its way. -/
theorem inv_callThen (h : Inv env none s) (hcallbacks : s.callbacks = before ++ callback :: after)
    (hsource : callback.source = source) (htarget : callback.target = some target)
    (hcollect : ∀ group keys key, callback = .collect group keys key →
      source = .entry group key ∧ target = .entries group)
    (hsettled : (s.outcome source).isSome)
    {body : source.Value → UiCode (Option target.Value)}
    (hbody : ∀ value, s.outcome source = some (.ok value) →
      Triple (BodyStarts env target { s with callbacks := before ++ after })
        (body value) (BodyDone env target) (Thrown env (some target))) :
    Inv env none (callThen source target body { s with callbacks := before ++ after }) := by
  subst hsource
  unfold callThen
  obtain ⟨r, hr⟩ := Option.isSome_iff_exists.mp hsettled
  rw [show ({ s with callbacks := before ++ after } : TaskState).outcome callback.source = some r
    from hr]
  cases r with
  | error e =>
    exact inv_callThen_error h hcallbacks htarget
      (fun group keys key heq => (hcollect group keys key heq).2) hr
  | ok value =>
    refine inv_callThen_ok h hcallbacks htarget hsettled ?_ (hbody value hr)
    intro group keys key heq
    obtain ⟨hsource, -⟩ := hcollect group keys key heq
    rw [← hsource, valueOf_eq_some_iff.mpr hr]
    rfl

end

theorem live_none_of_ne {ref : PromiseRef} (hne : hole ≠ some ref) (h : Live env hole s ref) :
    Live env none s ref := by
  rcases h with h | h
  · exact absurd h hne
  · exact .inr h

/-- A body that only passes a value on. -/
theorem triple_pass {target : PromiseRef} {value : target.Value} {s₁ : TaskState}
    (hvalue : Inv env (some target) s₁ →
      Resolved env (Live env (some target) s₁) s₁ target value) :
    Triple (BodyStarts env target s₁) (pure (some value) : UiCode (Option target.Value))
      (BodyDone env target) (Thrown env (some target)) := by
  apply triple_pure
  rintro s ⟨hs, rfl⟩
  exact ⟨hs, hvalue hs⟩

/-- A body that supplies a task whose promise the target follows. -/
theorem triple_follow {target : PromiseRef} {s₁ : TaskState} {supplier : Supplier}
    {follow : Callback} (hdue : Due env supplier) (hsource : follow.source = supplier.promise)
    (hok : CallbackOk env follow) (htarget : follow.target = some target)
    (hcollect : ∀ group keys key, follow ≠ .collect group keys key) :
    Triple (BodyStarts env target s₁)
      (do
        supplyAsync supplier
        register follow
        pure none : UiCode (Option target.Value))
      (BodyDone env target) (Thrown env (some target)) := by
  refine triple_bind (triple_weaken (P := Knows env (some target) ∅) (Q := _) ?_
    (fun _ _ h => h) (triple_supplyAsync hdue)) fun _ => ?_
  · rintro s ⟨hs, -⟩
    exact ⟨hs, nofun⟩
  · refine triple_bind (triple_register (hsource ▸ Set.mem_insert _ _) hok hcollect) fun _ => ?_
    apply triple_pure
    rintro s ⟨hs, hlive⟩
    exact ⟨hs, hlive target (.inl htarget)⟩

/-- `Collectors.toMap` of the outputs of a group that ends well gives the map of the outputs. -/
theorem isProcessOutputs_entriesToMap {group : Group}
    {entries : List (Entry ProgramId (Option ProcessOutput))}
    (hentries : IsEntries env group entries) {processOutputs : JMap ProgramId ProcessOutput}
    (h : entriesToMap entries = .ok processOutputs) :
    IsProcessOutputs env group processOutputs := by
  obtain ⟨⟨hnodup, hkeys⟩, houtput⟩ := hentries
  unfold entriesToMap at h
  have hlookup : ∀ programId programTemplate, Loaded env programId programTemplate →
      ∃ processOutput, processOutputs.lookup programId = some processOutput
        ∧ IsProcessOutput env programId group (some processOutput) := by
    intro programId programTemplate hloaded
    obtain ⟨value, hvalue⟩ := List.exists_of_mem_keys ((hkeys programId).mpr ⟨_, hloaded⟩)
    obtain ⟨processOutput, hpure, hprocess⟩ :=
      (lookup_of_collectToMap hnodup h programId).1 value (List.mem_dlookup hnodup hvalue)
    rw [Effectful.result_pure, Except.ok.injEq] at hpure
    exact ⟨processOutput, hprocess, hpure ▸ houtput _ hvalue⟩
  refine ⟨fun programId processOutput => ⟨fun hsome => ?_, fun hprocess => ?_⟩, ?_⟩
  · -- the map has no other keys
    by_cases hmem : programId ∈ entries.keys
    · obtain ⟨programTemplate, hloaded⟩ := (hkeys programId).mp hmem
      obtain ⟨processOutput', hsome', hprocess⟩ := hlookup programId programTemplate hloaded
      rw [hsome, Option.some.injEq] at hsome'
      exact hsome' ▸ hprocess
    · have hnone := (lookup_of_collectToMap hnodup h programId).2 (List.dlookup_eq_none.mpr hmem)
      rw [hsome, AList.lookup_empty] at hnone
      cases hnone
  · obtain ⟨programTemplate, hloaded⟩ := hprocess.loaded
    obtain ⟨processOutput', hsome, hprocess'⟩ := hlookup programId programTemplate hloaded
    have heq := hprocess.unique hprocess'
    rw [Option.some.injEq] at heq
    rw [heq, hsome]
  · intro programId programTemplate hloaded
    obtain ⟨processOutput, hsome, -⟩ := hlookup programId programTemplate hloaded
    exact ⟨processOutput, hsome⟩

/-- `Collectors.toMap` of the outputs of a group throws only if one of them is `null`. -/
theorem exists_null_of_entriesToMap {group : Group}
    {entries : List (Entry ProgramId (Option ProcessOutput))}
    (hentries : IsEntries env group entries) {e : JavaException}
    (he : entriesToMap entries = .error e) :
    ∃ programId, IsProcessOutput env programId group none := by
  by_contra hnull
  have hvalues : ∀ entry ∈ entries, ∃ processOutput,
      (pure entry.2 : Effectful (Option ProcessOutput)).result = .ok (some processOutput) := by
    intro entry hentry
    have hentry := hentries.2 entry hentry
    cases hvalue : entry.2 with
    | none => exact absurd ⟨entry.1, hvalue ▸ hentry⟩ hnull
    | some processOutput => exact ⟨processOutput, rfl⟩
  have hok : ∃ processOutputs, (collectToMap (fun (_ : ProgramId) value => pure value) entries
      (∅ : JMap ProgramId ProcessOutput)).result = .ok processOutputs :=
    collectToMap_ok entries ∅ hvalues
  obtain ⟨processOutputs, hok⟩ := hok
  unfold entriesToMap at he
  rw [hok] at he
  cases he

/-- `mapM` in `Option`: either every element has a value, or one has none.  The values tell which
elements they are of. -/
theorem mapM_option_cases {α β : Type} (f : α → Option β) (g : β → α) {xs : List α}
    (hg : ∀ x ∈ xs, ∀ y, f x = some y → g y = x) :
    (∃ ys, xs.mapM f = some ys ∧ ys.map g = xs ∧ ∀ y ∈ ys, f (g y) = some y)
      ∨ (xs.mapM f = none ∧ ∃ x ∈ xs, f x = none) := by
  induction xs with
  | nil => exact .inl ⟨[], rfl, rfl, nofun⟩
  | cons x xs ih =>
    rw [List.mapM_cons]
    cases hx : f x with
    | none => exact .inr ⟨rfl, x, List.mem_cons_self, hx⟩
    | some y =>
      have hy := hg x List.mem_cons_self y hx
      rcases ih fun x' hx' => hg x' (List.mem_cons_of_mem _ hx') with
        ⟨ys, hys, hmap, hvalue⟩ | ⟨hnone, x', hx', hnone'⟩
      · left
        refine ⟨y :: ys, by rw [hys]; rfl, by rw [List.map_cons, hmap, hy], ?_⟩
        intro y' hy'
        rcases List.mem_cons.mp hy' with rfl | hy'
        · rw [hy, hx]
        · exact hvalue y' hy'
      · right
        exact ⟨by rw [hnone]; rfl, x', List.mem_cons_of_mem _ hx', hnone'⟩

/-- `factory.all` resolves with all entries when it has waited for every one of them. -/
theorem triple_collect (h : Inv env none s) {group : Group} {keys : List ProgramId}
    {key : ProgramId} {before after : List Callback}
    (hcallbacks : s.callbacks = before ++ .collect group keys key :: after)
    {entry : Entry ProgramId (Option ProcessOutput)}
    (hentry : s.outcome (.entry group key) = some (.ok entry)) :
    Triple (BodyStarts env (.entries group) { s with callbacks := before ++ after })
      (collect group keys) (BodyDone env (.entries group))
      (Thrown env (some (.entries group))) := by
  have hmem : Callback.collect group keys key ∈ s.callbacks := by
    rw [hcallbacks]
    exact List.mem_append_right _ List.mem_cons_self
  refine triple_bind (triple_get (Q := fun s₁ s' => s₁ = s' ∧ Inv env (some (.entries group)) s'
    ∧ s' = { s with callbacks := before ++ after }) fun s' hs' => ⟨rfl, hs'⟩) fun s₁ => ?_
  split
  · -- some other promise is still waited for
    rename_i hany
    apply triple_pure
    rintro s' ⟨rfl, hs', -⟩
    obtain ⟨callback, hcallback, htarget⟩ := List.any_eq_true.mp hany
    exact ⟨hs', .inr (.inr (.inr ⟨callback, hcallback, of_decide_eq_true htarget⟩))⟩
  · rename_i hany
    apply triple_pure
    rintro s' ⟨rfl, hs', hs₁⟩
    refine ⟨hs', ?_⟩
    have hresolved : ∀ key entry, valueOf s₁ (.entry group key) = some entry →
        entry.1 = key ∧ IsProcessOutput env key group entry.2 :=
      fun key entry hvalue => hs'.resolved _ _ (valueOf_eq_some_iff.mp hvalue)
    rcases mapM_option_cases (fun key => valueOf s₁ (.entry group key)) Sigma.fst
      (fun key _ entry hvalue => (hresolved key entry hvalue).1) with
      ⟨entries, hentries, hmap, hvalue⟩ | ⟨hnone, key', hkey', hnone'⟩
    · rw [hentries]
      refine ⟨?_, fun entry hentry => (hresolved entry.1 entry (hvalue entry hentry)).2⟩
      rw [show entries.keys = keys from hmap]
      exact h.callbackOk _ hmem
    · -- a promise without a value is waited for, or the promise of `factory.all` is settled
      rw [hnone]
      subst hs₁
      have hnone' : valueOf s (.entry group key') = none := hnone'
      rcases h.collecting group keys key hmem key' hkey' with hvalue | hsettled | hcollect
      · rw [hnone'] at hvalue
        cases hvalue
      · exact .inr (.inl hsettled)
      · rw [hcallbacks, List.mem_append, List.mem_cons] at hcollect
        rcases hcollect with hcollect | heq | hcollect
        · exact .inr (.inr (.inr ⟨_, List.mem_append_left _ hcollect, rfl⟩))
        · injection heq with _ _ heq
          subst heq
          rw [valueOf_eq_some_iff.mpr hentry] at hnone'
          cases hnone'
        · exact .inr (.inr (.inr ⟨_, List.mem_append_right _ hcollect, rfl⟩))

theorem triple_body_programPipelines {s₁ : TaskState}
    {programTemplates : JMap ProgramId ProgramTemplate}
    (hload : loadProgramTemplates env = .ok programTemplates) :
    Triple (BodyStarts env .programPipelines s₁)
      (some <$> mapMapByEntryM programTemplates fun entry => programPipeline entry.1 entry.2)
      (BodyDone env .programPipelines) (Thrown env (some .programPipelines)) := by
  refine triple_weaken ?_ (fun _ _ h => h) (triple_map some (triple_programPipelines hload) ?_)
  · rintro s ⟨hs, -⟩
    exact ⟨hs, nofun⟩
  · rintro programPipelines s ⟨hpipelines, hs, hlive⟩
    refine ⟨hs, hpipelines, fun programId programTemplate group hloaded hgroup => ?_⟩
    exact live_of_live_none (hlive _ ⟨programId, programTemplate, group, hloaded, hgroup, rfl⟩)

theorem triple_body_examPipeline (h : Inv env none s) {group : Group} (hgroup : IsGroup group)
    {before after : List Callback} {programPipelines : JMap ProgramId ProgramPipeline}
    (hvalue : s.outcome .programPipelines = some (.ok programPipelines)) :
    Triple (BodyStarts env (.examPipeline group) { s with callbacks := before ++ after })
      (some <$> examPipeline programPipelines group)
      (BodyDone env (.examPipeline group)) (Thrown env (some (.examPipeline group))) := by
  have hpipelines : IsPipelines env programPipelines := (h.resolved _ _ hvalue).1
  have hexam : Triple
      (Knows env (some (.examPipeline group)) {ref | ∃ programId programTemplate,
        Loaded env programId programTemplate ∧ ref = .processOutput programId group})
      (examPipeline programPipelines group) _ _ :=
    triple_examPipeline hgroup hpipelines fun programId programTemplate hloaded =>
      ⟨programId, programTemplate, hloaded, rfl⟩
  refine triple_weaken ?_ (fun _ _ h => h) (triple_map some hexam ?_)
  · rintro s' ⟨hs', rfl⟩
    refine ⟨hs', ?_⟩
    rintro ref ⟨programId, programTemplate, hloaded, rfl⟩
    have hlive := (hs'.resolved .programPipelines _ hvalue).2 _ _ group hloaded hgroup
    refine live_none_of_ne ?_ hlive
    nofun
  · rintro examPipeline s' ⟨hs', hlive⟩
    exact ⟨hs', live_of_live_none (hlive _ rfl)⟩

theorem triple_body_processOutputs {s₁ : TaskState} {group : Group} (hgroup : IsGroup group)
    {entries : List (Entry ProgramId (Option ProcessOutput))}
    (hentries : IsEntries env group entries) :
    Triple (BodyStarts env (.processOutputs group) s₁)
      (some <$> (liftExcept (entriesToMap entries) : UiCode (JMap ProgramId ProcessOutput)))
      (BodyDone env (.processOutputs group)) (Thrown env (some (.processOutputs group))) := by
  refine triple_map some (triple_liftExcept _ (Q := fun processOutputs s' =>
    Inv env (some (.processOutputs group)) s' ∧ IsProcessOutputs env group processOutputs) ?_ ?_) ?_
  · rintro processOutputs hok s' ⟨hs', -⟩
    exact ⟨hs', isProcessOutputs_entriesToMap hentries hok⟩
  · -- an output is `null`, so a program has not exited with status 0
    rintro e he s' ⟨hs', -⟩
    obtain ⟨programId, hprocess⟩ := exists_null_of_entriesToMap hentries he
    refine ⟨hs', ?_⟩
    rintro ref ⟨⟩
    refine .inl ⟨trivial, fun hexits => ?_⟩
    exact exitsWithZero_iff.mp hexits programId group hgroup hprocess
  · rintro processOutputs s' ⟨hs', hprocess⟩
    exact ⟨hs', hprocess⟩

section

variable {callback : Callback} {before after : List Callback}

theorem inv_callWorkDone (h : Inv env none s) {ref : PromiseRef}
    (hcallbacks : s.callbacks = before ++ .workDone ref :: after)
    (hsettled : (s.outcome ref).isSome) :
    Inv env none (ContextState.callWorkDone ref { s with callbacks := before ++ after }) := by
  have htaken := h.take_callback hcallbacks hsettled nofun nofun
  unfold ContextState.callWorkDone
  split
  · exact htaken.mapContext (fun hexception => hexception) fun hexception => .inl hexception
  · exact htaken

theorem inv_callException (h : Inv env none s) {supplier : Supplier}
    (hcallbacks : s.callbacks = before ++ .exception supplier.promise :: after)
    (hsettled : (s.outcome supplier.promise).isSome) :
    Inv env none
      (ContextState.callException supplier.promise { s with callbacks := before ++ after }) := by
  unfold ContextState.callException
  split
  · rename_i e he
    -- the exception is kept first, so that the failure stays reported
    have hkept : Inv env none (ContextState.mapContext s fun context =>
        { context with exception := some e }) := by
      refine h.mapContext (fun _ => rfl) fun _ => .inr ?_
      rcases h.rejected _ e he with ⟨hdepends, -⟩ | ⟨hfails, -⟩
      · cases supplier <;> cases hdepends
      · exact ⟨hfails, supplier, e, he⟩
    exact hkept.take_callback hcallbacks hsettled nofun fun _ _ _ _ => rfl
  · rename_i hne
    refine h.take_callback hcallbacks hsettled nofun ?_
    rintro ref' e ⟨⟩ he
    exact absurd he (hne e)

/-- **Every callback keeps the invariant.** -/
theorem inv_call (h : Inv env none s) (hcallbacks : s.callbacks = before ++ callback :: after)
    (hsource : (s.outcome callback.source).isSome) :
    Inv env none (call callback { s with callbacks := before ++ after }) := by
  have hok : CallbackOk env callback := by
    apply h.callbackOk
    rw [hcallbacks]
    exact List.mem_append_right _ List.mem_cons_self
  cases callback with
  | workDone ref => exact inv_callWorkDone h hcallbacks hsource
  | exception ref =>
    obtain ⟨supplier, rfl⟩ := hok
    exact inv_callException h hcallbacks hsource
  | programPipelines =>
    show Inv env none (callThen .programTemplates .programPipelines _ _)
    refine inv_callThen h hcallbacks rfl rfl nofun hsource fun programTemplates hvalue => ?_
    exact triple_body_programPipelines (h.resolved _ _ hvalue)
  | examPipeline group =>
    show Inv env none (callThen .programPipelines (.examPipeline group) _ _)
    refine inv_callThen h hcallbacks rfl rfl nofun hsource fun programPipelines hvalue => ?_
    exact triple_body_examPipeline h hok hvalue
  | runProgram programId group =>
    show Inv env none
      (callThen (.compilerOutput programId group) (.processOutput programId group) _ _)
    refine inv_callThen h hcallbacks rfl rfl nofun hsource fun compilerOutput hvalue => ?_
    have hcompiler : IsCompilerOutput env programId group compilerOutput := h.resolved _ _ hvalue
    exact triple_follow ⟨hcompiler, hok⟩ rfl trivial rfl nofun
  | runOutput programId group =>
    show Inv env none (callThen (.runOutput programId group) (.processOutput programId group)
      (fun processOutput => pure (some processOutput)) _)
    refine inv_callThen h hcallbacks rfl rfl nofun hsource fun processOutput hvalue => ?_
    have hprocess : IsProcessOutput env programId group processOutput := h.resolved _ _ hvalue
    exact triple_pass fun _ => hprocess
  | entry group key valuePromise =>
    obtain rfl : valuePromise = (key, group) := hok
    show Inv env none (callThen (.processOutput key group) (.entry group key)
      (fun value => pure (some ⟨key, value⟩)) _)
    refine inv_callThen h hcallbacks rfl rfl nofun hsource fun value hvalue => ?_
    have hprocess : IsProcessOutput env key group value := h.resolved _ _ hvalue
    exact triple_pass fun _ => ⟨rfl, hprocess⟩
  | collect group keys key =>
    show Inv env none (callThen (.entry group key) (.entries group) _ _)
    refine inv_callThen h hcallbacks rfl rfl ?_ hsource fun entry hvalue => ?_
    · rintro group' keys' key' ⟨⟩
      exact ⟨rfl, rfl⟩
    · exact triple_collect h hcallbacks hvalue
  | processOutputs group =>
    show Inv env none (callThen (.entries group) (.processOutputs group) _ _)
    refine inv_callThen h hcallbacks rfl rfl nofun hsource fun entries hvalue => ?_
    exact triple_body_processOutputs hok (h.resolved _ _ hvalue)
  | documentsGenerated group programPipelineMap =>
    show Inv env none (callThen (.processOutputs group) (.documentsGenerated group) _ _)
    refine inv_callThen h hcallbacks rfl rfl nofun hsource fun processOutputs hvalue => ?_
    have hprocess : IsProcessOutputs env group processOutputs := h.resolved _ _ hvalue
    exact triple_follow ⟨hok.1, hok.2, hprocess⟩ rfl trivial rfl nofun
  | documents group =>
    show Inv env none (callThen (.documents group) (.documentsGenerated group)
      (fun value => pure (some value)) _)
    refine inv_callThen h hcallbacks rfl rfl nofun hsource fun value hvalue => ?_
    exact triple_pass fun _ => hvalue

end

/-! ### The end of a task -/

/-- A supplier gives what its promise stands for. -/
theorem resolved_runSupplier {supplier : Supplier} (hdue : Due env supplier)
    {value : supplier.promise.Value} (h : (runSupplier env supplier).result = .ok value)
    (live : PromiseRef → Prop) :
    Resolved env live (ContextState.addEffects s (runSupplier env supplier).effects)
      supplier.promise value := by
  cases supplier with
  | loadProgramTemplates => exact h
  | compileProgramTemplate programId programTemplate group => exact ⟨programTemplate, hdue.1, h⟩
  | runProgram programId compilerOutput group => exact ⟨compilerOutput, hdue.1, h⟩
  | generateExamVariants group programPipelineMap processOutputs =>
    refine ⟨⟨processOutputs, hdue.2.2⟩, ?_⟩
    obtain ⟨evaluated, hevaluated, -⟩ := (Effectful.bind_ok_iff _ _ _).mp h
    refine ⟨evaluated, List.mem_append_right _ ?_⟩
    refine (Effectful.mem_effects_bind _ _ _).mpr (.inr ⟨evaluated, hevaluated, ?_⟩)
    exact (Effectful.mem_effects_bind _ _ _).mpr (.inl List.mem_cons_self)

/-- The map that the exam of a group is made from is the right one. -/
theorem isEvaluated_evaluatedProgramTemplateMap {group : Group}
    {programPipelineMap : JMap ProgramId ProgramPipeline}
    {processOutputs : JMap ProgramId ProcessOutput}
    {evaluated : JMap ProgramId EvaluatedProgramTemplate}
    (hpipelines : IsPipelines env programPipelineMap)
    (hprocess : IsProcessOutputs env group processOutputs)
    (h : evaluatedProgramTemplateMap programPipelineMap processOutputs = .ok evaluated) :
    IsEvaluated env group evaluated := by
  intro programId template
  rw [lookup_of_mapToMapM h, ← AList.mem_keys, ← AList.lookup_isSome]
  constructor
  · rintro ⟨-, hvalue⟩
    split at hvalue
    · rename_i programPipeline processOutput hpipeline houtput
      obtain ⟨programTemplate, hloaded, rfl⟩ := (hpipelines _ _).mp hpipeline
      cases hvalue
      exact ⟨programTemplate, processOutput, hloaded, (hprocess.1 _ _).mp houtput, rfl⟩
    · cases hvalue
  · rintro ⟨programTemplate, processOutput, hloaded, houtput, rfl⟩
    rw [(hpipelines _ _).mpr ⟨programTemplate, hloaded, rfl⟩, (hprocess.1 _ _).mpr houtput]
    exact ⟨rfl, rfl⟩

/-- The documents are made after the call by which the two ways of generating exams are
compared. -/
theorem examVariants_of_mem_effects {group group' : Group}
    {m m' : JMap ProgramId EvaluatedProgramTemplate}
    (h : .examVariants group' m' ∈ (generateExamVariantsForGroup env m group).effects) :
    group' = group ∧ m' = m := by
  have hdocuments : ∀ variant,
      .examVariants group' m' ∉ (generateExamVariantForGroup env m group variant).effects := by
    intro variant h
    unfold generateExamVariantForGroup at h
    rcases (Effectful.mem_effects_bind _ _ _).mp h with h | ⟨examTemplate, -, h⟩
    · cases h
    rcases (Effectful.mem_effects_bind _ _ _).mp h with h | ⟨placeholderRefs, -, h⟩
    · cases h
    split at h
    simp at h
  rcases (Effectful.mem_effects_bind _ _ _).mp h with h | ⟨-, -, h⟩
  · rw [Effectful.effects_perform, List.mem_singleton] at h
    cases h
    exact ⟨rfl, rfl⟩
  · rw [Effectful.effects_wrapException, Effectful.mem_effects_bind] at h
    rcases h with h | ⟨-, -, h⟩
    · exact absurd h (hdocuments _)
    · exact absurd h (hdocuments _)

/-- A supplier makes exams from the right map only. -/
theorem evaluated_runSupplier {supplier : Supplier} (hdue : Due env supplier) {group : Group}
    {programTemplateMap : JMap ProgramId EvaluatedProgramTemplate}
    (h : .examVariants group programTemplateMap ∈ (runSupplier env supplier).effects) :
    IsGroup group ∧ IsEvaluated env group programTemplateMap := by
  cases supplier with
  | loadProgramTemplates => cases h
  | compileProgramTemplate programId programTemplate group' =>
    obtain ⟨diagnostic, heq⟩ :=
      onlyDiagnostics_compileProgramTemplate programId programTemplate group' _ h
    cases heq
  | runProgram programId compilerOutput group' =>
    obtain ⟨diagnostic, heq⟩ := onlyDiagnostics_runProgram programId compilerOutput group' _ h
    cases heq
  | generateExamVariants group' programPipelineMap processOutputs =>
    obtain ⟨hgroup, hpipelines, hprocess⟩ := hdue
    rcases (Effectful.mem_effects_bind _ _ _).mp h with h | ⟨evaluated, hevaluated, h⟩
    · cases h
    · obtain ⟨rfl, rfl⟩ := examVariants_of_mem_effects h
      exact ⟨hgroup, isEvaluated_evaluatedProgramTemplateMap hpipelines hprocess hevaluated⟩

theorem grows_addEffects (effects : List Effect) : Grows s (ContextState.addEffects s effects) where
  outcome _ _ h := h
  callbacks := List.Subset.refl _
  tasks := List.Subset.refl _
  effects := List.subset_append_left _ _
  exception h := h

/-- **The end of every task keeps the invariant.** -/
theorem inv_finish (h : Inv env none s) {supplier : Supplier} {before after : List Supplier}
    (htasks : s.tasks = before ++ supplier :: after) :
    Inv env none (finish env supplier { s with tasks := before ++ after }) := by
  have hmem : supplier ∈ s.tasks := by
    rw [htasks]
    exact List.mem_append_right _ List.mem_cons_self
  have hdue := h.due supplier hmem
  have hgrown := (h.take_task htasks).grow (grows_addEffects (runSupplier env supplier).effects)
    (fun _ h => .inl h) (fun _ h => .inl h) (fun _ _ h => .inl h) (fun h => .inl h) (by
      intro group programTemplateMap heffect
      rcases List.mem_append.mp heffect with hold | hnew
      · exact .inl hold
      · exact .inr (evaluated_runSupplier hdue hnew))
  have hsettled := hgrown.settle (r := (runSupplier env supplier).result)
    (fun value hvalue => resolved_runSupplier hdue hvalue _) ?_
  · apply hsettled.close
    rintro ref ⟨⟩
    exact .inr (.inl (State.settle_outcome_isSome _ _ _))
  · -- the callback that reports the failure is waiting
    intro e he hpending
    refine .inr ⟨⟨supplier, e, hdue, he⟩, .inr ⟨supplier.promise, e, ?_, ?_⟩⟩
    · rw [State.settle_of_none _ hpending, he]
      exact Function.update_self _ _ _
    · rw [State.settle_callbacks]
      exact h.reporting supplier hmem hpending

/-! ### Every run -/

theorem newProjectTask_eq : newProjectTask =
    ⟨fun _ => none,
      [.workDone .programTemplates, .exception .programTemplates, .programPipelines,
        .examPipeline Group.A, .examPipeline Group.B],
      [.loadProgramTemplates], ⟨⟨0, 1, none⟩, []⟩⟩ := rfl

theorem inv_newProjectTask : Inv env none newProjectTask := by
  -- only the load task is running, and everything else waits for it
  have htemplates : Live env none newProjectTask .programTemplates :=
    .inr (.inr (.inl ⟨.loadProgramTemplates, List.mem_cons_self, rfl⟩))
  have hpipelines : Live env none newProjectTask .programPipelines :=
    .inr (.inr (.inr ⟨.programPipelines, by simp [newProjectTask_eq], rfl⟩))
  have hcallbacks : ∀ callback ∈ newProjectTask.callbacks,
      callback = .workDone .programTemplates ∨ callback = .exception .programTemplates
        ∨ callback = .programPipelines ∨ callback = .examPipeline Group.A
        ∨ callback = .examPipeline Group.B := by
    simp [newProjectTask_eq]
  constructor
  case started =>
    intro ref href
    cases ref with
    | programPipelines => exact hpipelines
    | examPipeline group =>
      rcases href with rfl | rfl
      · exact .inr (.inr (.inr ⟨.examPipeline Group.A, by simp [newProjectTask_eq], rfl⟩))
      · exact .inr (.inr (.inr ⟨.examPipeline Group.B, by simp [newProjectTask_eq], rfl⟩))
    | _ => cases href
  case waiting =>
    intro callback hcallback
    rcases hcallbacks callback hcallback with rfl | rfl | rfl | rfl | rfl
    · exact htemplates
    · exact htemplates
    · exact htemplates
    · exact hpipelines
    · exact hpipelines
  case callbackOk =>
    intro callback hcallback
    rcases hcallbacks callback hcallback with rfl | rfl | rfl | rfl | rfl
    · trivial
    · exact ⟨.loadProgramTemplates, rfl⟩
    · trivial
    · exact .inl rfl
    · exact .inr rfl
  case collecting =>
    intro group keys key hcollect
    rcases hcallbacks _ hcollect with h | h | h | h | h <;> cases h
  case due =>
    intro supplier hsupplier
    rw [newProjectTask_eq, List.mem_singleton] at hsupplier
    subst hsupplier
    trivial
  case reporting =>
    intro supplier hsupplier _
    rw [newProjectTask_eq, List.mem_singleton] at hsupplier
    subst hsupplier
    exact List.mem_cons_of_mem _ List.mem_cons_self
  case resolved => nofun
  case rejected => nofun
  case failed => nofun
  case evaluated => nofun

/-- **Every state a task can reach satisfies the invariant.** -/
theorem reachable_inv (h : (projectTask env).Reachable newProjectTask s) : Inv env none s :=
  h.invariant (fun _ _ _ _ hs hcallbacks hsource => inv_call hs hcallbacks hsource)
    (fun _ _ _ _ hs htasks => inv_finish hs htasks) inv_newProjectTask

end ExamGeneratorNg
