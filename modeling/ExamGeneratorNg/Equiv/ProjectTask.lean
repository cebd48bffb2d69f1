import ExamGeneratorNg.Equiv.TaskRuns

/-!
# What `getState` says

`documentsGenerated_iff` says when a task that has succeeded has generated all documents.
-/

namespace ExamGeneratorNg

open Promise

variable {env : Environment} {s : TaskState}

/-! ### Success -/

/-- The promises in the order in which they can be settled. -/
def PromiseRef.rank : PromiseRef → ℕ
  | programTemplates => 0
  | programPipelines => 1
  | examPipeline _ => 2
  | compilerOutput _ _ => 1
  | runOutput _ _ => 2
  | processOutput _ _ => 3
  | entry _ _ => 4
  | entries _ => 5
  | processOutputs _ => 6
  | documents _ => 7
  | documentsGenerated _ => 8

/-- When nothing can happen any more, every promise on its way is settled. -/
theorem Inv.settled (h : Inv env none s) (hquiescent : (projectTask env).Quiescent s)
    {ref : PromiseRef} (hlive : Live env none s ref) : (s.outcome ref).isSome := by
  refine System.Live.settled PromiseRef.rank ?_ h.waiting hquiescent hlive
  intro callback ref htarget
  show PromiseRef.rank callback.source < ref.rank
  cases callback <;> cases htarget <;> simp [PromiseRef.rank, Callback.source]

/-- When nothing can happen any more, no promise is rejected without an exception being kept,
unless a program has not exited with status 0. -/
theorem Inv.not_rejected (h : Inv env none s) (hquiescent : (projectTask env).Quiescent s)
    (hexception : s.world.promiseContext.exception = none) {ref : PromiseRef}
    (hexits : DependsOnOutputs ref → ExitsWithZero env) (e : JavaException) :
    s.outcome ref ≠ some (.error e) := by
  intro he
  rcases h.rejected ref e he with ⟨hdepends, hnot⟩ | ⟨-, hreported | ⟨ref', e', he', hcallback⟩⟩
  · exact hnot (hexits hdepends)
  · rw [hexception] at hreported
    cases hreported
  · have hpending := hquiescent.2 _ hcallback
    rw [show (projectTask env).source (.exception ref') = ref' from rfl, he'] at hpending
    cases hpending

/-- `getState`, without the division. -/
theorem getState_eq (s : TaskState) :
    getState s = if s.world.promiseContext.exception = none then
      if s.world.promiseContext.workDone = s.world.promiseContext.workTotal
        ∧ s.world.promiseContext.workTotal ≠ 0 then .succeeded else .running
      else .failed := by
  have hprogress : getProgress s = 1 ↔
      s.world.promiseContext.workDone = s.world.promiseContext.workTotal
        ∧ s.world.promiseContext.workTotal ≠ 0 := by
    unfold getProgress PromiseContext.getProgress
    by_cases htotal : s.world.promiseContext.workTotal = 0
    · simp [htotal]
    · have htotal' : (s.world.promiseContext.workTotal : ℚ) ≠ 0 := by exact_mod_cast htotal
      rw [div_eq_one_iff_eq htotal', Nat.cast_inj]
      simp [htotal]
  unfold getState PromiseContext.getException
  simp only [hprogress]

/-- `documentsGeneratedPromise` of the group is resolved. -/
def DocumentsGenerated (s : TaskState) (group : Group) : Prop :=
  s.outcome (.documentsGenerated group) = some (.ok ())

/-- When nothing can happen any more and no exception is kept, every promise on its way is
resolved, unless it depends on an output that is `null`. -/
theorem Inv.exists_value (h : Inv env none s) (hquiescent : (projectTask env).Quiescent s)
    (hexception : s.world.promiseContext.exception = none) {ref : PromiseRef}
    (hexits : DependsOnOutputs ref → ExitsWithZero env) (hlive : Live env none s ref) :
    ∃ value, s.outcome ref = some (.ok value) := by
  obtain ⟨r, hr⟩ := Option.isSome_iff_exists.mp (h.settled hquiescent hlive)
  cases r with
  | error e => exact absurd hr (h.not_rejected hquiescent hexception hexits e)
  | ok value => exact ⟨value, hr⟩

theorem Inv.documentsGenerated (h : Inv env none s) (hquiescent : (projectTask env).Quiescent s)
    (hexception : s.world.promiseContext.exception = none) (hexits : ExitsWithZero env)
    {group : Group} (hgroup : IsGroup group) : DocumentsGenerated s group := by
  obtain ⟨examPipeline, hexam⟩ :=
    h.exists_value hquiescent hexception (fun _ => hexits) (h.started (.examPipeline group) hgroup)
  obtain ⟨⟨⟩, hdocuments⟩ :=
    h.exists_value hquiescent hexception (fun _ => hexits) (h.resolved _ _ hexam)
  exact hdocuments

theorem Inv.isProcessOutputs (h : Inv env none s) {group : Group}
    (hdocuments : DocumentsGenerated s group) :
    ∃ processOutputs, IsProcessOutputs env group processOutputs :=
  (h.resolved (.documents group) () (h.resolved _ _ hdocuments)).1

/-- **A task that has succeeded has generated the documents of both groups if and only if every
program exits with status 0.**  A program that does not is reported by a diagnostic only: its
output is `null`, `PromiseUtils.all` throws, and nothing ever looks at the promise that rejects. -/
theorem documentsGenerated_iff (hreachable : (projectTask env).Reachable newProjectTask s)
    (hquiescent : (projectTask env).Quiescent s) (hstate : getState s = .succeeded) :
    DocumentsGenerated s Group.A ∧ DocumentsGenerated s Group.B ↔ ExitsWithZero env := by
  have h := reachable_inv hreachable
  constructor
  · rintro ⟨hA, hB⟩
    rw [exitsWithZero_iff]
    intro programId group hgroup hnull
    have hdocuments : DocumentsGenerated s group := by
      rcases hgroup with rfl | rfl
      · exact hA
      · exact hB
    obtain ⟨processOutputs, hprocess, hall⟩ := h.isProcessOutputs hdocuments
    obtain ⟨programTemplate, hloaded⟩ := hnull.loaded
    obtain ⟨processOutput, hlookup⟩ := hall programId programTemplate hloaded
    have heq := hnull.unique ((hprocess programId processOutput).mp hlookup)
    cases heq
  · intro hexits
    have hexception : s.world.promiseContext.exception = none := by
      by_contra hfailed
      rw [getState_eq, if_neg hfailed] at hstate
      cases hstate
    exact ⟨h.documentsGenerated hquiescent hexception hexits (.inl rfl),
      h.documentsGenerated hquiescent hexception hexits (.inr rfl)⟩

/-- A workspace with one program, which writes a line and exits with the given status, and an exam
template without placeholders. -/
def oneProgramEnvironment (status : ℤ) : Environment where
  readWholeFile path := if path = jstr "01.cpp" then .ok [] else .error .ioException
  compile _ _ _ := .ok ⟨[], some ⟨.ok ⟨[jstr "ok"], [], status⟩⟩⟩
  loadDocument := .ok (.node (.element (some 0) (.other []) []) [])
  save _ := .ok ()
  writeOutputs := .ok ()
  toLowerCase := asciiToLowerCase

/-- The end of a run over that workspace. -/
def oneProgramRun (status : ℤ) : TaskState :=
  (projectTask (oneProgramEnvironment status)).runFirst 60 newProjectTask

theorem reachable_oneProgramRun (status : ℤ) :
    (projectTask (oneProgramEnvironment status)).Reachable newProjectTask (oneProgramRun status) :=
  System.reachable_runFirst 60

/-- A program that exits with status 0. -/
theorem documentsGenerated_iff_example :
    (projectTask (oneProgramEnvironment 0)).Quiescent (oneProgramRun 0)
    ∧ (DocumentsGenerated (oneProgramRun 0) Group.A
        ∧ DocumentsGenerated (oneProgramRun 0) Group.B
      ↔ ExitsWithZero (oneProgramEnvironment 0)) := by
  have hquiescent : (projectTask (oneProgramEnvironment 0)).Quiescent (oneProgramRun 0) := by
    decide +kernel
  have hstate : getState (oneProgramRun 0) = .succeeded := by decide +kernel
  exact ⟨hquiescent, documentsGenerated_iff (reachable_oneProgramRun 0) hquiescent hstate⟩

/-- A program that exits with status 1: nothing can happen any more, the task has succeeded, and
there are no documents. -/
theorem succeeded_without_documents :
    (projectTask (oneProgramEnvironment 1)).Reachable newProjectTask (oneProgramRun 1)
    ∧ (projectTask (oneProgramEnvironment 1)).Quiescent (oneProgramRun 1)
    ∧ getState (oneProgramRun 1) = .succeeded
    ∧ ¬ DocumentsGenerated (oneProgramRun 1) Group.A
    ∧ ¬ DocumentsGenerated (oneProgramRun 1) Group.B := by
  have hpending : ∀ group ∈ [Group.A, Group.B],
      valueOf (oneProgramRun 1) (.documentsGenerated group) = none := by
    decide +kernel
  have hnot : ∀ group ∈ [Group.A, Group.B], ¬ DocumentsGenerated (oneProgramRun 1) group := by
    intro group hgroup hdocuments
    have hnone := hpending group hgroup
    rw [valueOf_eq_some_iff.mpr hdocuments] at hnone
    cases hnone
  refine ⟨reachable_oneProgramRun 1, by decide +kernel, by decide +kernel, ?_, ?_⟩
  · exact hnot Group.A (by simp)
  · exact hnot Group.B (by simp)

end ExamGeneratorNg
