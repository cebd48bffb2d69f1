import ExamGeneratorNg.Equiv.LineTemplateParsing
import ExamGeneratorNg.Equiv.ProgramRunning

/-!
# The programs that are loaded

`loadProgramTemplates` loads the sources in order and stops at the first that cannot be read, so
that the programs of a workspace are numbered without gaps (`loaded_iff_readable`).
-/

namespace ExamGeneratorNg

variable {env : Environment}

/-- The name of the file of a program. -/
def programFileName (index : ℕ) : JString := format02d (ProgramId.fromIndex index).id ++ jstr ".cpp"

/-- `readWholeFile` throws an `UncheckedIOException` where it throws. -/
def ReadsOrIoException (env : Environment) : Prop :=
  ∀ path e, env.readWholeFile path = .error e → e = .ioException

/-- A source that can be read is loaded, since every source can be parsed. -/
theorem loadProgramTemplate_cases (h : ReadsOrIoException env) (path : JString) :
    (∃ programTemplate, loadProgramTemplate env path = .ok programTemplate)
    ∨ loadProgramTemplate env path = .error .ioException := by
  unfold loadProgramTemplate
  cases hread : env.readWholeFile path with
  | error e =>
    obtain rfl := h path e hread
    exact .inr rfl
  | ok str => exact .inl (parseProgramTemplate_ok str)

/-- What the loop of `loadProgramTemplates` loads from `i` on, with `n` more indices to go: the
first `k` programs, where it stops at the next. -/
structure LoadsPrefix (env : Environment) (i n k : ℕ)
    (programTemplates programTemplates' : JMap ProgramId ProgramTemplate) : Prop where
  le : k ≤ n
  loaded : ∀ j < k, ∃ programTemplate,
    loadProgramTemplate env (programFileName (i + j)) = .ok programTemplate
      ∧ programTemplates'.lookup (ProgramId.fromIndex (i + j)) = some programTemplate
  stopped : k = n ∨ loadProgramTemplate env (programFileName (i + k)) = .error .ioException
  others : ∀ programId, (∀ j < k, programId ≠ ProgramId.fromIndex (i + j)) →
    programTemplates'.lookup programId = programTemplates.lookup programId

theorem fromIndex_injective : Function.Injective ProgramId.fromIndex := by
  intro i j h
  have hid : (ProgramId.fromIndex i).id = (ProgramId.fromIndex j).id := by rw [h]
  exact Nat.succ.inj hid

/-- By induction on the indices to go; a program that has been loaded is not replaced later. -/
theorem loadProgramTemplatesFrom_spec (h : ReadsOrIoException env) (i n : ℕ)
    (programTemplates : JMap ProgramId ProgramTemplate) :
    ∃ k programTemplates',
      loadProgramTemplatesFrom env i n programTemplates = .ok programTemplates'
      ∧ LoadsPrefix env i n k programTemplates programTemplates' := by
  induction n generalizing i programTemplates with
  | zero => exact ⟨0, programTemplates, rfl, le_rfl, nofun, .inl rfl, fun _ _ => rfl⟩
  | succ n ih =>
    rcases loadProgramTemplate_cases h (programFileName i) with ⟨programTemplate, hload⟩ | hload
    · obtain ⟨k, programTemplates', hrest, hreads⟩ :=
        ih (i + 1) (programTemplates.insert (ProgramId.fromIndex i) programTemplate)
      refine ⟨k + 1, programTemplates', ?_, Nat.succ_le_succ hreads.le, ?_, ?_, ?_⟩
      · unfold loadProgramTemplatesFrom
        unfold programFileName at hload
        dsimp only
        rw [hload]
        exact hrest
      · intro j hj
        cases j with
        | zero =>
          refine ⟨programTemplate, hload, ?_⟩
          rw [hreads.others _ fun j _ heq => ?_, Nat.add_zero, AList.lookup_insert]
          have hindex := fromIndex_injective heq
          omega
        | succ j =>
          obtain ⟨programTemplate', hload', hlookup⟩ := hreads.loaded j (by omega)
          rw [Nat.add_assoc, Nat.add_comm 1 j] at hload' hlookup
          exact ⟨programTemplate', hload', hlookup⟩
      · rcases hreads.stopped with rfl | hstopped
        · exact .inl rfl
        · rw [Nat.add_assoc, Nat.add_comm 1 k] at hstopped
          exact .inr hstopped
      · intro programId hothers
        rw [hreads.others programId fun j hj heq => ?_, AList.lookup_insert_ne ?_]
        · exact hothers 0 (by omega)
        · refine hothers (j + 1) (by omega) ?_
          rw [heq, Nat.add_assoc, Nat.add_comm 1 j]
    · refine ⟨0, programTemplates, ?_, Nat.zero_le _, nofun, .inr hload, fun _ _ => rfl⟩
      unfold loadProgramTemplatesFrom
      unfold programFileName at hload
      dsimp only
      rw [hload]
      rfl

/-- The programs of a workspace, and how many there are. -/
theorem exists_readable_programs (h : ReadsOrIoException env) :
    ∃ k ≤ maxCodeTemplatesCount, ∃ programTemplates,
      loadProgramTemplates env = .ok programTemplates
      ∧ (∀ i < k, ∃ programTemplate,
          loadProgramTemplate env (programFileName i) = .ok programTemplate)
      ∧ (k = maxCodeTemplatesCount
        ∨ loadProgramTemplate env (programFileName k) = .error .ioException)
      ∧ ∀ programId programTemplate, programTemplates.lookup programId = some programTemplate
        ↔ ∃ i < k, programId = ProgramId.fromIndex i
          ∧ loadProgramTemplate env (programFileName i) = .ok programTemplate := by
  obtain ⟨k, programTemplates, hload, hreads⟩ :=
    loadProgramTemplatesFrom_spec h 0 maxCodeTemplatesCount ∅
  have hloaded := hreads.loaded
  have hstopped := hreads.stopped
  simp only [Nat.zero_add] at hloaded hstopped
  refine ⟨k, hreads.le, programTemplates, hload, fun i hi => ?_, hstopped, ?_⟩
  · obtain ⟨programTemplate, hread, -⟩ := hloaded i hi
    exact ⟨programTemplate, hread⟩
  · intro programId programTemplate
    by_cases hid : ∃ i < k, programId = ProgramId.fromIndex i
    · obtain ⟨i, hi, rfl⟩ := hid
      obtain ⟨programTemplate', hread, hlookup⟩ := hloaded i hi
      rw [Nat.zero_add] at hlookup
      rw [hlookup]
      constructor
      · rintro ⟨⟩
        exact ⟨i, hi, rfl, hread⟩
      · rintro ⟨i', -, hindex, hread'⟩
        obtain rfl := fromIndex_injective hindex
        exact congrArg some (Except.ok.inj (hread.symm.trans hread'))
    · have hnone : programTemplates.lookup programId = none := by
        rw [hreads.others programId fun i hi heq => hid ⟨i, hi, by rw [heq, Nat.zero_add]⟩]
        rfl
      rw [hnone]
      constructor
      · exact nofun
      · rintro ⟨i, hi, heq, -⟩
        exact absurd ⟨i, hi, heq⟩ hid

/-- **The programs of a workspace are numbered without gaps**: a program is loaded, with the
template that its own source is parsed to, exactly if its source and those of all programs before
it can be read, and it is one of the first twenty. -/
theorem loaded_iff_readable (h : ReadsOrIoException env) (programId : ProgramId)
    (programTemplate : ProgramTemplate) :
    Loaded env programId programTemplate ↔ ∃ index < maxCodeTemplatesCount,
      programId = ProgramId.fromIndex index
      ∧ (∀ i < index, ∃ str, env.readWholeFile (programFileName i) = .ok str)
      ∧ ∃ str, env.readWholeFile (programFileName index) = .ok str
        ∧ parseProgramTemplate str = .ok programTemplate := by
  obtain ⟨k, hk, programTemplates, hload, hread, hstopped, hlookup⟩ := exists_readable_programs h
  have hstr : ∀ i programTemplate, loadProgramTemplate env (programFileName i) = .ok programTemplate
      ↔ ∃ str, env.readWholeFile (programFileName i) = .ok str
        ∧ parseProgramTemplate str = .ok programTemplate := by
    intro i programTemplate
    unfold loadProgramTemplate
    cases env.readWholeFile (programFileName i) with
    | error e => exact ⟨nofun, nofun⟩
    | ok str =>
      constructor
      · exact fun hparse => ⟨str, rfl, hparse⟩
      · rintro ⟨_, ⟨⟩, hparse⟩
        exact hparse
  rw [loaded_iff hload, hlookup]
  constructor
  · rintro ⟨index, hindex, rfl, hparse⟩
    refine ⟨index, by omega, rfl, fun i hi => ?_, (hstr _ _).mp hparse⟩
    obtain ⟨programTemplate', hread⟩ := hread i (by omega)
    obtain ⟨str, hread, -⟩ := (hstr _ _).mp hread
    exact ⟨str, hread⟩
  · rintro ⟨index, hindex, rfl, hbefore, hparse⟩
    refine ⟨index, ?_, rfl, (hstr _ _).mpr hparse⟩
    -- it has not stopped before, as all sources up to this one can be read
    by_contra hle
    rcases hstopped with hall | hstopped
    · omega
    · have hreads : ∃ str, env.readWholeFile (programFileName k) = .ok str := by
        by_cases hlast : k = index
        · subst hlast
          obtain ⟨str, hread, -⟩ := hparse
          exact ⟨str, hread⟩
        · exact hbefore k (by omega)
      obtain ⟨str, hread⟩ := hreads
      obtain ⟨programTemplate', hparse'⟩ := parseProgramTemplate_ok str
      rw [(hstr _ _).mpr ⟨str, hread, hparse'⟩] at hstopped
      cases hstopped

/-- A workspace with the sources `01.cpp` and `03.cpp`, which are empty. -/
def gapEnvironment : Environment where
  readWholeFile path :=
    if path = jstr "01.cpp" ∨ path = jstr "03.cpp" then .ok [] else .error .ioException
  compile _ _ _ := .error .ioException
  loadDocument := .error .ioException
  save _ := .error .ioException
  writeOutputs := .error .ioException
  toLowerCase := asciiToLowerCase

theorem readsOrIoException_gapEnvironment : ReadsOrIoException gapEnvironment := by
  intro path e h
  unfold gapEnvironment at h
  dsimp only at h
  split_ifs at h
  exact (Except.error.inj h).symm

/-- The source behind a gap is not loaded. -/
theorem loaded_iff_readable_example :
    ¬ ∃ programTemplate, Loaded gapEnvironment (ProgramId.fromIndex 2) programTemplate := by
  rintro ⟨programTemplate, h⟩
  obtain ⟨index, -, hindex, hbefore, -⟩ :=
    (loaded_iff_readable readsOrIoException_gapEnvironment _ _).mp h
  obtain rfl := fromIndex_injective hindex
  obtain ⟨str, hread⟩ := hbefore 1 (by decide)
  have hmissing : gapEnvironment.readWholeFile (programFileName 1) = .error .ioException := by
    decide
  rw [hmissing] at hread
  cases hread

end ExamGeneratorNg
