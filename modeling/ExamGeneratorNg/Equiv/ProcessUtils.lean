import ExamGeneratorNg.Util.ProcessUtils

/-!
# Correctness of `execute`

`output_of_returned`: what `execute` returns is what the child has written, all of it, and its
exit status.  But it reads nothing before the child has exited, so the child must be able to write
everything into the pipes: `deadlockFree_iff`.
-/

namespace ExamGeneratorNg

open Transition

/-- What is written to a stream. -/
def written (stream : OutputStream) (writes : List Write) : List UInt8 :=
  writes.flatMap fun write => if write.stream = stream then write.data else []

/-- `execute` has returned. -/
def Execution.Returned (s : Execution) : Prop := s.statements = []

/-! ### The invariant -/

variable {capacity : ℕ} {status : ℤ} {writes : List Write}

/-- What holds along a run of `execute` with a child that makes the given writes. -/
structure ExecutionInv (capacity : ℕ) (status : ℤ) (writes : List Write) (s : Execution) :
    Prop where
  /-- no byte is lost or written twice -/
  conserved : ∀ stream, s.received stream ++ s.pipe stream ++ written stream s.writes
    = written stream writes
  /-- the pipes hold what they can hold -/
  bounded : ∀ stream, (s.pipe stream).length ≤ capacity
  /-- nothing is read before the child has exited -/
  waiting : s.exited = false → s.statements = (Execution.start writes).statements ∧
    ∀ stream, s.received stream = []
  /-- what the child has written has fitted into the pipes -/
  exited : s.exited = true → s.writes = [] ∧ ∀ stream, (written stream writes).length ≤ capacity
  /-- where `execute` is -/
  place : s.statements = (Execution.start writes).statements ∨
    s.exited = true ∧ s.status = some status ∧
      (s.statements = [.readLines .standardOutput, .readLines .errorOutput] ∨
        s.pipe .standardOutput = [] ∧ (s.statements = [.readLines .errorOutput] ∨
          s.pipe .errorOutput = [] ∧ s.statements = []))

theorem executionInv_start : ExecutionInv capacity status writes (Execution.start writes) where
  conserved _ := rfl
  bounded _ := Nat.zero_le _
  waiting _ := ⟨rfl, fun _ => rfl⟩
  exited h := by cases h
  place := .inl rfl

theorem written_cons_nil (stream stream' : OutputStream) (writes : List Write) :
    written stream (⟨stream', []⟩ :: writes) = written stream writes := by
  simp [written]

theorem written_cons_cons (stream : OutputStream) (byte : UInt8) (data : List UInt8)
    (writes : List Write) :
    written stream (⟨stream, byte :: data⟩ :: writes)
      = byte :: written stream (⟨stream, data⟩ :: writes) := by
  simp [written]

theorem written_cons_of_ne {stream stream' : OutputStream} (h : stream' ≠ stream)
    (data : List UInt8) (writes : List Write) :
    written stream (⟨stream', data⟩ :: writes) = written stream writes := by
  simp [written, h]

/-- The steps of the child. -/
theorem stepChild_cases {s s' : Execution} (h : s.stepChild capacity = some s') :
    (s.writes = [] ∧ s.exited = false ∧ s' = { s with exited := true }) ∨
    (∃ stream rest, s.writes = ⟨stream, []⟩ :: rest ∧ s' = { s with writes := rest }) ∨
    ∃ stream byte data rest, s.writes = ⟨stream, byte :: data⟩ :: rest ∧
      (s.pipe stream).length < capacity ∧
      s' = { s with
        pipe := Function.update s.pipe stream (s.pipe stream ++ [byte])
        writes := ⟨stream, data⟩ :: rest } := by
  unfold Execution.stepChild at h
  split at h
  · next hwrites =>
    split_ifs at h with hexited
    exact .inl ⟨hwrites, Bool.eq_false_iff.mpr hexited, (Option.some.inj h).symm⟩
  · next stream rest hwrites => exact .inr (.inl ⟨stream, rest, hwrites, (Option.some.inj h).symm⟩)
  · next stream byte data rest hwrites =>
    split_ifs at h with hroom
    exact .inr (.inr ⟨stream, byte, data, rest, hwrites, hroom, (Option.some.inj h).symm⟩)

/-- The steps of `execute`. -/
theorem stepExecute_cases {s s' : Execution} (h : s.stepExecute status = some s') :
    (∃ rest, s.statements = .waitFor :: rest ∧ s.exited = true ∧
      s' = { s with statements := rest, status := some status }) ∨
    (∃ stream rest byte data, s.statements = .readLines stream :: rest ∧
      s.pipe stream = byte :: data ∧
      s' = { s with
        pipe := Function.update s.pipe stream data
        received := Function.update s.received stream (s.received stream ++ [byte]) }) ∨
    ∃ stream rest, s.statements = .readLines stream :: rest ∧ s.pipe stream = [] ∧
      s.exited = true ∧ s' = { s with statements := rest } := by
  unfold Execution.stepExecute at h
  split at h
  · cases h
  · next rest hstatements =>
    split_ifs at h with hexited
    exact .inl ⟨rest, hstatements, hexited, (Option.some.inj h).symm⟩
  · next stream rest hstatements =>
    split at h
    · next byte data hpipe =>
      exact .inr (.inl ⟨stream, rest, byte, data, hstatements, hpipe, (Option.some.inj h).symm⟩)
    · next hpipe =>
      split_ifs at h with hexited
      exact .inr (.inr ⟨stream, rest, hstatements, hpipe, hexited, (Option.some.inj h).symm⟩)

section

variable {s s' : Execution}

theorem ExecutionInv.place_of_waitFor (h : ExecutionInv capacity status writes s)
    {rest : List Statement} (hstatements : s.statements = .waitFor :: rest) :
    rest = [.readLines .standardOutput, .readLines .errorOutput] := by
  rcases h.place with hplace | ⟨-, -, hplace | ⟨-, hplace | ⟨-, hplace⟩⟩⟩ <;>
    rw [hstatements] at hplace
  · exact (List.cons.inj hplace).2
  · cases hplace
  · cases hplace
  · cases hplace

theorem ExecutionInv.place_of_readLines (h : ExecutionInv capacity status writes s)
    {stream : OutputStream} {rest : List Statement}
    (hstatements : s.statements = .readLines stream :: rest) :
    s.exited = true ∧ s.status = some status ∧
      (stream = .standardOutput ∧ rest = [.readLines .errorOutput] ∨
        stream = .errorOutput ∧ rest = [] ∧ s.pipe .standardOutput = []) := by
  rcases h.place with hplace | ⟨hexited, hstatus, hplace | ⟨hpipe, hplace | ⟨-, hplace⟩⟩⟩ <;>
    rw [hstatements] at hplace
  · cases hplace
  · obtain ⟨hstream, hrest⟩ := List.cons.inj hplace
    exact ⟨hexited, hstatus, .inl ⟨Statement.readLines.inj hstream, hrest⟩⟩
  · obtain ⟨hstream, hrest⟩ := List.cons.inj hplace
    exact ⟨hexited, hstatus, .inr ⟨Statement.readLines.inj hstream, hrest, hpipe⟩⟩
  · cases hplace

/-- **A step of the child keeps the invariant.** -/
theorem ExecutionInv.stepChild (h : ExecutionInv capacity status writes s)
    (hstep : s.stepChild capacity = some s') : ExecutionInv capacity status writes s' := by
  have hrunning : s.writes ≠ [] → s.exited = false := by
    intro hne
    by_contra hexited
    exact hne (h.exited (by simpa using hexited)).1
  rcases stepChild_cases hstep with ⟨hwrites, hexited, rfl⟩ | ⟨stream, rest, hwrites, rfl⟩ |
    ⟨stream, byte, data, rest, hwrites, hroom, rfl⟩
  · obtain ⟨hstatements, hreceived⟩ := h.waiting hexited
    -- nothing has been read, so all that was written is in the pipes
    have hfits : ∀ stream, (written stream writes).length ≤ capacity := by
      intro stream
      have hconserved := h.conserved stream
      rw [hreceived, hwrites] at hconserved
      rw [← hconserved]
      simpa [written] using h.bounded stream
    exact ⟨h.conserved, h.bounded, nofun, fun _ => ⟨hwrites, hfits⟩, .inl hstatements⟩
  · have hexited := hrunning (by rw [hwrites]; simp)
    refine ⟨fun stream' => ?_, h.bounded, h.waiting, fun htrue => ?_, h.place⟩
    · rw [← h.conserved, hwrites, written_cons_nil]
    · exact absurd (hexited.symm.trans htrue) Bool.false_ne_true
  · have hexited := hrunning (by rw [hwrites]; simp)
    refine ⟨fun stream' => ?_, fun stream' => ?_, h.waiting, fun htrue => ?_,
      .inl (h.waiting hexited).1⟩
    · have hconserved := h.conserved stream'
      rw [hwrites] at hconserved
      dsimp only
      by_cases hstream : stream = stream'
      · subst hstream
        rw [written_cons_cons] at hconserved
        simpa using hconserved
      · rw [written_cons_of_ne hstream] at hconserved
        rw [Function.update_of_ne (Ne.symm hstream), written_cons_of_ne hstream]
        exact hconserved
    · dsimp only
      by_cases hstream : stream' = stream
      · subst hstream
        rw [Function.update_self, List.length_append]
        exact hroom
      · rw [Function.update_of_ne hstream]
        exact h.bounded stream'
    · exact absurd (hexited.symm.trans htrue) Bool.false_ne_true

/-- **A step of `execute` keeps the invariant.** -/
theorem ExecutionInv.stepExecute (h : ExecutionInv capacity status writes s)
    (hstep : s.stepExecute status = some s') : ExecutionInv capacity status writes s' := by
  rcases stepExecute_cases hstep with ⟨rest, hstatements, hexited, rfl⟩ |
    ⟨stream, rest, byte, data, hstatements, hpipe, rfl⟩ |
    ⟨stream, rest, hstatements, hpipe, -, rfl⟩
  · refine ⟨h.conserved, h.bounded, fun hfalse => ?_, h.exited,
      .inr ⟨hexited, rfl, .inl (h.place_of_waitFor hstatements)⟩⟩
    exact absurd (hfalse.symm.trans hexited) Bool.false_ne_true
  · obtain ⟨hexited, hstatus, hplace⟩ := h.place_of_readLines hstatements
    refine ⟨fun stream' => ?_, fun stream' => ?_, fun hfalse => ?_, h.exited,
      .inr ⟨hexited, hstatus, ?_⟩⟩
    · have hconserved := h.conserved stream'
      dsimp only
      by_cases hstream : stream' = stream
      · subst hstream
        rw [hpipe] at hconserved
        simpa using hconserved
      · rw [Function.update_of_ne hstream, Function.update_of_ne hstream]
        exact hconserved
    · have hbounded := h.bounded stream'
      dsimp only
      by_cases hstream : stream' = stream
      · subst hstream
        rw [hpipe] at hbounded
        rw [Function.update_self]
        exact (Nat.le_succ _).trans hbounded
      · rw [Function.update_of_ne hstream]
        exact hbounded
    · exact absurd (hfalse.symm.trans hexited) Bool.false_ne_true
    · rcases hplace with ⟨rfl, rfl⟩ | ⟨rfl, rfl, hempty⟩
      · exact .inl hstatements
      · -- reading the error output leaves the standard output empty
        refine .inr ⟨?_, .inl hstatements⟩
        dsimp only
        rw [Function.update_of_ne (by simp)]
        exact hempty
  · obtain ⟨hexited, hstatus, hplace⟩ := h.place_of_readLines hstatements
    refine ⟨h.conserved, h.bounded, fun hfalse => ?_, h.exited, .inr ⟨hexited, hstatus, ?_⟩⟩
    · exact absurd (hfalse.symm.trans hexited) Bool.false_ne_true
    · rcases hplace with ⟨rfl, rfl⟩ | ⟨rfl, rfl, hempty⟩
      · exact .inr ⟨hpipe, .inl rfl⟩
      · exact .inr ⟨hempty, .inr ⟨hpipe, rfl⟩⟩

theorem executionInv_of_leads
    (h : (executeSystem capacity status).Leads (Execution.start writes) s) :
    ExecutionInv capacity status writes s := by
  refine h.invariant (fun party s s' hs hstep => ?_) executionInv_start
  cases party with
  | child => exact hs.stepChild hstep
  | execute => exact hs.stepExecute hstep

/-! ### What `execute` returns -/

theorem ExecutionInv.of_returned (h : ExecutionInv capacity status writes s)
    (hreturned : s.Returned) : s.exited = true ∧ s.status = some status ∧
      ∀ stream, s.received stream = written stream writes := by
  unfold Execution.Returned at hreturned
  rcases h.place with hplace | ⟨hexited, hstatus, hplace | ⟨hout, hplace | ⟨herr, -⟩⟩⟩
  · rw [hreturned] at hplace
    cases hplace
  · rw [hreturned] at hplace
    cases hplace
  · rw [hreturned] at hplace
    cases hplace
  · refine ⟨hexited, hstatus, fun stream => ?_⟩
    have hconserved := h.conserved stream
    have hpipe : s.pipe stream = [] := by
      cases stream with
      | standardOutput => exact hout
      | errorOutput => exact herr
    rw [hpipe, (h.exited hexited).1] at hconserved
    simpa [written] using hconserved

/-- **`execute` returns what the child has written**, and its exit status. -/
theorem output_of_returned (readLines : List UInt8 → List JString)
    (h : (executeSystem capacity status).Leads (Execution.start writes) s)
    (hreturned : s.Returned) :
    s.output readLines = some ⟨readLines (written .standardOutput writes),
      readLines (written .errorOutput writes), status⟩ := by
  obtain ⟨-, hstatus, hreceived⟩ := (executionInv_of_leads h).of_returned hreturned
  unfold Execution.Returned at hreturned
  rw [Execution.output, hreturned, hstatus, hreceived, hreceived]

/-! ### Deadlocks -/

/-- How much there is still to do. -/
def Execution.remaining (s : Execution) : ℕ :=
  2 * (s.writes.map fun write => write.data.length).sum + s.writes.length +
    (if s.exited then 0 else 1) + (s.pipe .standardOutput).length + (s.pipe .errorOutput).length +
      s.statements.length

theorem remaining_stepChild (h : s.stepChild capacity = some s') : s'.remaining < s.remaining := by
  unfold Execution.remaining
  rcases stepChild_cases h with ⟨hwrites, hexited, rfl⟩ | ⟨stream, rest, hwrites, rfl⟩ |
    ⟨stream, byte, data, rest, hwrites, -, rfl⟩
  · simp [hwrites, hexited]
  · simp [hwrites]
  · cases stream <;> simp [hwrites] <;> omega

theorem remaining_stepExecute (h : s.stepExecute status = some s') :
    s'.remaining < s.remaining := by
  unfold Execution.remaining
  rcases stepExecute_cases h with ⟨rest, hstatements, -, rfl⟩ |
    ⟨stream, rest, byte, data, hstatements, hpipe, rfl⟩ | ⟨stream, rest, hstatements, -, -, rfl⟩
  · simp [hstatements]
  · cases stream <;> simp [hpipe]
  · simp [hstatements]

/-- A child that has not exited can go on if it has room for all it writes. -/
theorem ExecutionInv.child_can_step (h : ExecutionInv capacity status writes s)
    (hexited : s.exited = false) (hroom : ∀ stream, (written stream writes).length ≤ capacity) :
    ∃ s', s.stepChild capacity = some s' := by
  obtain ⟨-, hreceived⟩ := h.waiting hexited
  unfold Execution.stepChild
  split
  · exact ⟨_, by rw [if_neg (by simp [hexited])]⟩
  · exact ⟨_, rfl⟩
  · next stream byte data rest hwrites =>
    have hconserved := h.conserved stream
    rw [hreceived, hwrites, written_cons_cons] at hconserved
    have hlength := congrArg List.length hconserved
    simp only [List.nil_append, List.length_append, List.length_cons] at hlength
    have hfits := hroom stream
    exact ⟨_, if_pos (by omega)⟩

/-- Once the child has exited, `execute` goes on until it returns. -/
theorem execute_can_step (hexited : s.exited = true) (hreturned : ¬ s.Returned) :
    ∃ s', s.stepExecute status = some s' := by
  unfold Execution.stepExecute
  split
  · next hstatements => exact absurd hstatements hreturned
  · exact ⟨_, if_pos hexited⟩
  · split
    · exact ⟨_, rfl⟩
    · exact ⟨_, if_pos hexited⟩

/-- **When `execute` cannot deadlock**: exactly when the child writes no more to either stream than
a pipe holds. -/
theorem deadlockFree_iff :
    (executeSystem capacity status).DeadlockFree Execution.Returned (Execution.start writes) ↔
      ∀ stream, (written stream writes).length ≤ capacity := by
  constructor
  · intro hfree
    -- some run goes on until it is stuck, and has then returned
    obtain ⟨s, hleads, hstuck⟩ := @System.exists_leads_stuck _ _ (executeSystem capacity status)
      Execution.remaining (by
        intro party s s' hstep
        cases party with
        | child => exact remaining_stepChild hstep
        | execute => exact remaining_stepExecute hstep) (Execution.start writes)
    have hinv := executionInv_of_leads hleads
    obtain ⟨hexited, -⟩ := hinv.of_returned (hfree.mayEnd_of_stuck hleads hstuck)
    exact (hinv.exited hexited).2
  · intro hroom s hleads hreturned
    have hinv := executionInv_of_leads hleads
    cases hexited : s.exited with
    | false =>
      obtain ⟨s', hstep⟩ := hinv.child_can_step hexited hroom
      exact ⟨.child, s', hstep⟩
    | true =>
      obtain ⟨s', hstep⟩ := execute_can_step hexited hreturned
      exact ⟨.execute, s', hstep⟩

end

/-- Two bytes and a pipe that holds one. -/
theorem full_pipe_deadlocks :
    ¬ ∀ (capacity : ℕ) (status : ℤ) (writes : List Write), 1 ≤ capacity →
      (executeSystem capacity status).DeadlockFree Execution.Returned
        (Execution.start writes) := by
  intro h
  have hfree := h 1 0 [⟨.standardOutput, [0, 0]⟩] (by decide)
  -- the child has written the first byte and waits, and `execute` waits for the child
  obtain ⟨party, s', hstep⟩ := hfree _ ⟨[.child], rfl⟩ (by
    intro hreturned
    cases hreturned)
  cases party with
  | child => cases hstep
  | execute => cases hstep

/-! ### The end of every run -/

section

variable {s : Execution}

theorem remaining_next (party : Party) (s s' : Execution)
    (h : (executeSystem capacity status).next party s = some s') : s'.remaining < s.remaining := by
  cases party with
  | child => exact remaining_stepChild h
  | execute => exact remaining_stepExecute h

/-- A run that is stuck has returned, if the child can write everything. -/
theorem returned_of_stuck
    (hleads : (executeSystem capacity status).Leads (Execution.start writes) s)
    (hstuck : (executeSystem capacity status).Stuck s)
    (hroom : ∀ stream, (written stream writes).length ≤ capacity) : s.Returned := by
  by_contra hreturned
  have hinv := executionInv_of_leads hleads
  cases hexited : s.exited with
  | false =>
    obtain ⟨s', hstep⟩ := hinv.child_can_step hexited hroom
    exact absurd (hstep.symm.trans (hstuck .child)) nofun
  | true =>
    obtain ⟨s', hstep⟩ := execute_can_step hexited hreturned
    exact absurd (hstep.symm.trans (hstuck .execute)) nofun

/-- **How every run of `execute` ends**: it has a bounded number of steps, and where it can go on no
more, `execute` has returned all that the child has written and its exit status, if the pipes hold
that, and will never return otherwise. -/
theorem execute_outcome {parties : List Party} (readLines : List UInt8 → List JString)
    (hrun : (executeSystem capacity status).run parties (Execution.start writes) = some s) :
    parties.length
      ≤ 2 * (writes.map fun write => write.data.length).sum + writes.length + 4
    ∧ ((executeSystem capacity status).Stuck s → s.output readLines
      = if (written .standardOutput writes).length ≤ capacity
          ∧ (written .errorOutput writes).length ≤ capacity then
          some ⟨readLines (written .standardOutput writes),
            readLines (written .errorOutput writes), status⟩
        else none) := by
  have hleads : (executeSystem capacity status).Leads (Execution.start writes) s := ⟨_, hrun⟩
  have hinv := executionInv_of_leads hleads
  refine ⟨?_, fun hstuck => ?_⟩
  · have hlength := System.length_add_le remaining_next hrun
    have hstart : (Execution.start writes).remaining
        = 2 * (writes.map fun write => write.data.length).sum + writes.length + 4 := rfl
    omega
  · split_ifs with hroom
    · have hreturned := returned_of_stuck hleads hstuck fun stream => by
        cases stream with
        | standardOutput => exact hroom.1
        | errorOutput => exact hroom.2
      exact output_of_returned readLines hleads hreturned
    · have hreturned : s.statements ≠ [] := by
        intro hreturned
        obtain ⟨hexited, -⟩ := hinv.of_returned hreturned
        have hfits := (hinv.exited hexited).2
        exact hroom ⟨hfits _, hfits _⟩
      unfold Execution.output
      cases hstatements : s.statements with
      | nil => exact absurd hstatements hreturned
      | cons statement statements => rfl

/-- A child that writes one byte, and pipes that hold one. -/
theorem execute_outcome_example : ∃ s : Execution,
    (executeSystem 1 0).run [.child, .child, .child, .execute, .execute, .execute, .execute]
      (Execution.start [⟨.standardOutput, [65]⟩]) = some s
    ∧ s.output (fun bytes => [bytes.map fun byte => UInt16.ofNat byte.toNat])
      = some ⟨[jstr "A"], [[]], 0⟩ := by
  have hrun : (executeSystem 1 0).run
      [.child, .child, .child, .execute, .execute, .execute, .execute]
      (Execution.start [⟨.standardOutput, [65]⟩]) = some _ := rfl
  obtain ⟨-, houtput⟩ := execute_outcome _ hrun
  exact ⟨_, hrun, (houtput fun party => by cases party <;> rfl).trans rfl⟩

end

end ExamGeneratorNg
