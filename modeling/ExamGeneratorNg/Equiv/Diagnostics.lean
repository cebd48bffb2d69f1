import ExamGeneratorNg.Equiv.CommandLine
import ExamGeneratorNg.Ui.Programs

/-!
# What a task reports

However a `ProjectTask` ends, and in whatever order its tasks end, it has reported everything the
compiler has to say about every program for both groups, each message once; and it has reported
nothing else but programs that have not exited with status 0, each of them at most once, and all of
them if the task has succeeded (`getDiagnostics_of_quiescent`).

As soon as one task has failed, `supplyAsync` throws, so programs that were still being compiled are
never run.  The compilations are not concerned: they are all supplied by one callback, which is
called before anything but the loading of the workspace can have failed (`Loading`).
-/

namespace ExamGeneratorNg

open Promise Stateful Ui

variable {env : Environment} {s s' : TaskState} {past : List (Event Callback Supplier)}

/-! ### Before the workspace is loaded -/

/-- What is known as long as the pipelines of the programs are not there, and why they are never
there. -/
structure Loading (s : TaskState) : Prop where
  callbacks : s.outcome .programPipelines = none → s.callbacks ⊆ newProjectTask.callbacks
  tasks : s.outcome .programPipelines = none →
    ∀ supplier ∈ s.tasks, supplier = .loadProgramTemplates
  exception : s.outcome .programPipelines = none → s.world.promiseContext.exception.isSome →
    ∃ e, s.outcome .programTemplates = some (.error e)
  rejected : ∀ e, s.outcome .programPipelines = some (.error e) →
    ∃ e', s.outcome .programTemplates = some (.error e')

/-- No exception has been kept, and the pipelines of the programs are still to come. -/
def Unfailed (s : TaskState) : Prop :=
  s.world.promiseContext.exception = none ∧ s.outcome .programPipelines = none

/-- The code does not throw unless an exception has been kept, and keeps none. -/
def Unfailing {α : Type} (x : UiCode α) : Prop :=
  Triple Unfailed x (fun _ => Unfailed) fun _ => False

theorem unfailing_supplyAsync (supplier : Supplier) : Unfailing (supplyAsync supplier) := by
  intro s hs
  rw [run_supplyAsync, if_pos hs.1]
  exact hs

theorem unfailing_groupPipeline (programId : ProgramId) (programTemplate : ProgramTemplate)
    (group : Group) : Unfailing (groupPipeline programId programTemplate group) := by
  refine triple_bind (unfailing_supplyAsync _) fun _ => ?_
  have hregister : Unfailing (register (.runProgram programId group)) :=
    triple_modify _ fun s hs => hs
  exact triple_bind hregister fun _ => triple_pure _ fun _ hs => hs

theorem unfailing_programPipeline (programId : ProgramId) (programTemplate : ProgramTemplate) :
    Unfailing (programPipeline programId programTemplate) := by
  refine triple_bind (unfailing_groupPipeline _ _ _) fun _ => ?_
  exact triple_bind (unfailing_groupPipeline _ _ _) fun _ => triple_pure _ fun _ hs => hs

theorem unfailing_programPipelines (programTemplates : JMap ProgramId ProgramTemplate) :
    Unfailing (mapMapByEntryM programTemplates fun entry => programPipeline entry.1 entry.2) :=
  triple_foldlM programTemplates.entries (I := fun _ _ => Unfailed)
    (fun _ _ entry _ => triple_bind (unfailing_programPipeline entry.1 entry.2) fun _ =>
      triple_pure _ fun _ hs => hs) ∅

/-- A callback that leaves nothing to others settles its promise. -/
theorem isSome_callThen_map {source target : PromiseRef}
    {body : source.Value → UiCode target.Value} (h : (s.outcome source).isSome) :
    ((callThen source target (fun value => some <$> body value) s).outcome target).isSome := by
  obtain ⟨r, hr⟩ := Option.isSome_iff_exists.mp h
  unfold callThen
  rw [hr]
  cases r with
  | error e => exact State.settle_outcome_isSome s target _
  | ok value =>
    dsimp only
    rw [map_eq_pure_bind, run_bind]
    rcases (body value).run.run s with ⟨e | w, s'⟩
    · exact State.settle_outcome_isSome s' target _
    · exact State.settle_outcome_isSome s' target _

/-- A state in which the pipelines are there, or have been rejected for a reason. -/
theorem loading_of_settled (hsettled : (s.outcome .programPipelines).isSome)
    (hrejected : ∀ e, s.outcome .programPipelines = some (.error e) →
      ∃ e', s.outcome .programTemplates = some (.error e')) : Loading s := by
  have hne : s.outcome .programPipelines ≠ none := Option.isSome_iff_ne_none.mp hsettled
  exact ⟨fun h => absurd h hne, fun h => absurd h hne, fun h => absurd h hne, hrejected⟩

/-- A step that settles nothing, and keeps an exception only if the loading has failed. -/
theorem Loading.of_outcome_eq (h : Loading s) (houtcome : s'.outcome = s.outcome)
    (hcallbacks : s.outcome .programPipelines = none → s'.callbacks ⊆ newProjectTask.callbacks)
    (htasks : s'.tasks = s.tasks)
    (hexception : s'.world.promiseContext.exception.isSome →
      s.world.promiseContext.exception.isSome
        ∨ ∃ e, s.outcome .programTemplates = some (.error e)) : Loading s' where
  callbacks hnone := hcallbacks (houtcome ▸ hnone)
  tasks hnone := htasks ▸ h.tasks (houtcome ▸ hnone)
  exception hnone hsome := by
    rw [houtcome] at hnone ⊢
    rcases hexception hsome with hold | hfailed
    · exact h.exception hnone hold
    · exact hfailed
  rejected := houtcome ▸ h.rejected

theorem Loading.callException (h : Loading s)
    (hcallbacks : s.outcome .programPipelines = none → s.callbacks ⊆ newProjectTask.callbacks) :
    Loading (ContextState.callException .programTemplates s) := by
  unfold ContextState.callException
  split
  · case _ e he =>
    exact h.of_outcome_eq rfl hcallbacks rfl fun _ => .inr ⟨e, he⟩
  · exact h

theorem Loading.callProgramPipelines (h : Loading s)
    (hnone : s.outcome .programPipelines = none) (hsource : (s.outcome .programTemplates).isSome) :
    Loading (ExamGeneratorNg.call .programPipelines s) := by
  refine loading_of_settled (isSome_callThen_map hsource) fun e he => ?_
  obtain ⟨r, hr⟩ := Option.isSome_iff_exists.mp hsource
  have hr' := (call_kept (s := s) .programPipelines).1 _ _ hr
  rcases callThen_outcome he with hold | ⟨e', he', -⟩ | ⟨programTemplates, hvalue, hbody⟩
  · rw [hnone] at hold
    cases hold
  · exact ⟨e', (call_kept (s := s) .programPipelines).1 _ _ he'⟩
  · -- nothing has failed yet, so the body does not throw
    have hexception : s.world.promiseContext.exception = none := by
      by_contra hsome
      obtain ⟨e', he'⟩ := h.exception hnone (Option.isSome_iff_ne_none.mpr hsome)
      rw [hvalue] at he'
      cases he'
    have hbodies := triple_map some (unfailing_programPipelines programTemplates)
      (S := fun _ => Unfailed) (fun _ _ hs => hs) s ⟨hexception, hnone⟩
    split at hbodies
    · case _ programPipelines s' hrun =>
      rw [hrun] at hbody
      rcases hbody with hold | ⟨e', hthrown, -⟩ | ⟨w, -, hw⟩
      · rw [hbodies.2] at hold
        cases hold
      · cases hthrown
      · cases hw
    · exact hbodies.elim

theorem Loading.call (h : Loading s) {callback : Callback} {before after : List Callback}
    (hcallbacks : s.callbacks = before ++ callback :: after)
    (hsource : (s.outcome callback.source).isSome) :
    Loading (ExamGeneratorNg.call callback { s with callbacks := before ++ after }) := by
  have hkept := (call_kept (s := { s with callbacks := before ++ after }) callback).1
  by_cases hnone : s.outcome .programPipelines = none
  · have hsubset := h.callbacks hnone
    have hrest : before ++ after ⊆ newProjectTask.callbacks := by
      intro callback' hmem
      apply hsubset
      rw [hcallbacks]
      simp only [List.mem_append, List.mem_cons] at hmem ⊢
      tauto
    have hother : Loading { s with callbacks := before ++ after } :=
      h.of_outcome_eq rfl (fun _ => hrest) rfl .inl
    have hmem : callback ∈ newProjectTask.callbacks := hsubset (by rw [hcallbacks]; simp)
    simp only [newProjectTask_eq, List.mem_cons, List.not_mem_nil, or_false] at hmem
    rcases hmem with rfl | rfl | rfl | rfl | rfl
    · show Loading (ContextState.callWorkDone .programTemplates _)
      rcases ContextState.callWorkDone_cases { s with callbacks := before ++ after }
        .programTemplates with hcall | hcall <;> rw [hcall]
      · exact hother
      · exact hother.of_outcome_eq rfl (fun _ => hrest) rfl .inl
    · exact hother.callException fun _ => hrest
    · exact hother.callProgramPipelines hnone hsource
    -- the pipelines of the exams wait for those of the programs
    · change (s.outcome .programPipelines).isSome at hsource
      rw [hnone] at hsource
      cases hsource
    · change (s.outcome .programPipelines).isSome at hsource
      rw [hnone] at hsource
      cases hsource
  · obtain ⟨r, hr⟩ := Option.ne_none_iff_exists'.mp hnone
    have hr' := hkept _ _ hr
    refine loading_of_settled (by rw [hr']; rfl) fun e he => ?_
    rw [hr', Option.some.injEq] at he
    obtain ⟨e', he'⟩ := h.rejected e (he ▸ hr)
    exact ⟨e', hkept _ _ he'⟩

theorem Loading.finish (h : Loading s) {supplier : Supplier} {before after : List Supplier}
    (htasks : s.tasks = before ++ supplier :: after) :
    Loading (ExamGeneratorNg.finish env supplier { s with tasks := before ++ after }) := by
  set s' := ExamGeneratorNg.finish env supplier { s with tasks := before ++ after } with hs'
  have hcallbacks : s'.callbacks = s.callbacks := by
    rw [hs', ExamGeneratorNg.finish, State.settle_callbacks]
    rfl
  have hrest : s'.tasks = before ++ after := by
    rw [hs', ExamGeneratorNg.finish, State.settle_tasks]
    rfl
  have hpipelines : s'.outcome .programPipelines = s.outcome .programPipelines :=
    State.settle_outcome_of_ne _ (by cases supplier <;> nofun) _
  have hkept : ∀ e, s.outcome .programTemplates = some (.error e) →
      ∃ e', s'.outcome .programTemplates = some (.error e') :=
    fun e he => ⟨e, finish_kept supplier he⟩
  constructor
  · intro hnone
    rw [hcallbacks]
    exact h.callbacks (hpipelines ▸ hnone)
  · intro hnone supplier' hmem
    apply h.tasks (hpipelines ▸ hnone)
    rw [hrest, List.mem_append] at hmem
    rw [htasks, List.mem_append, List.mem_cons]
    tauto
  · intro hnone hsome
    rw [hs', finish_promiseContext] at hsome
    obtain ⟨e, he⟩ := h.exception (hpipelines ▸ hnone) hsome
    exact hkept e he
  · intro e he
    obtain ⟨e', he'⟩ := h.rejected e (hpipelines ▸ he)
    exact hkept e' he'

/-- The computation reports nothing. -/
def ReportsNothing {α : Type} (m : Effectful α) : Prop :=
  ∀ diagnostic, .diagnostic diagnostic ∉ m.effects

theorem ReportsNothing.bind {α β : Type} {m : Effectful α} {f : α → Effectful β}
    (hm : ReportsNothing m) (hf : ∀ a, ReportsNothing (f a)) : ReportsNothing (m >>= f) := by
  intro diagnostic hmem
  rcases (Effectful.mem_effects_bind _ _ _).mp hmem with hmem | ⟨a, -, hmem⟩
  · exact hm diagnostic hmem
  · exact hf a diagnostic hmem

end ExamGeneratorNg
