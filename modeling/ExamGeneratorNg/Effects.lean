import ExamGeneratorNg.Dom
import ExamGeneratorNg.Exam

/-!
# The outside world

What the program does to the world (`Effect`) and what the world answers (`Environment`): the
files of the workspace, the compiler, and the programs that are run.
-/

namespace ExamGeneratorNg

/-! ### Effects -/

/-- `DiagnosticKind`; the code never writes the third kind, `INFO`. -/
inductive DiagnosticKind
  | warning
  | error
deriving DecidableEq, Repr

/-- `Diagnostic`. -/
structure Diagnostic where
  kind : DiagnosticKind
  message : JString
deriving DecidableEq, Repr

/-- What the program does to the world. -/
inductive Effect
  /-- `diagnosticStream.writeDiagnostic` -/
  | diagnostic (diagnostic : Diagnostic)
  /-- `generateExamVariantsForGroup` is called; nothing of it is visible outside, but it is what
  two ways of generating exams are compared by -/
  | examVariants (group : Group) (programTemplateMap : JMap ProgramId EvaluatedProgramTemplate)
  /-- a document is saved -/
  | document (fileName : JString) (contentDom : Node)

/-- A computation with effects that may throw: its effects in order, and how it ends. -/
structure Effectful (α : Type) where
  effects : List Effect
  result : Except JavaException α

namespace Effectful

variable {α β : Type}

protected def pure (a : α) : Effectful α := ⟨[], .ok a⟩

protected def bind (m : Effectful α) (f : α → Effectful β) : Effectful β :=
  match m.result with
  | .ok a => ⟨m.effects ++ (f a).effects, (f a).result⟩
  | .error e => ⟨m.effects, .error e⟩

instance : Monad Effectful where
  pure := Effectful.pure
  bind := Effectful.bind

/-- The end of a computation that has no effects. -/
def ofExcept (result : Except JavaException α) : Effectful α := ⟨[], result⟩

/-- The computation that has one effect. -/
def perform (effect : Effect) : Effectful Unit := ⟨[effect], .ok ()⟩

/-- `catch (Exception e) { throw new RuntimeException(e); }` -/
def wrapException (m : Effectful α) : Effectful α :=
  ⟨m.effects, m.result.mapError .runtimeException⟩

/-! What a computation with effects does, without unfolding it. -/

@[simp] theorem effects_pure (a : α) : (pure a : Effectful α).effects = [] := rfl

@[simp] theorem result_pure (a : α) : (pure a : Effectful α).result = .ok a := rfl

@[simp] theorem effects_ofExcept (result : Except JavaException α) :
    (ofExcept result).effects = [] := rfl

@[simp] theorem result_ofExcept (result : Except JavaException α) :
    (ofExcept result).result = result := rfl

@[simp] theorem effects_perform (effect : Effect) : (perform effect).effects = [effect] := rfl

@[simp] theorem result_perform (effect : Effect) : (perform effect).result = .ok () := rfl

@[simp] theorem effects_wrapException (m : Effectful α) :
    m.wrapException.effects = m.effects := rfl

@[simp] theorem bind_ok_iff (m : Effectful α) (f : α → Effectful β) (b : β) :
    (m >>= f).result = .ok b ↔ ∃ a, m.result = .ok a ∧ (f a).result = .ok b := by
  show (Effectful.bind m f).result = _ ↔ _
  unfold Effectful.bind
  cases m.result <;> simp

@[simp] theorem mem_effects_bind (m : Effectful α) (f : α → Effectful β) (effect : Effect) :
    effect ∈ (m >>= f).effects
      ↔ effect ∈ m.effects ∨ ∃ a, m.result = .ok a ∧ effect ∈ (f a).effects := by
  show effect ∈ (Effectful.bind m f).effects ↔ _
  unfold Effectful.bind
  cases m.result <;> simp

theorem effects_bind_of_ok {m : Effectful α} {a : α} (h : m.result = .ok a)
    (f : α → Effectful β) : (m >>= f).effects = m.effects ++ (f a).effects := by
  show (Effectful.bind m f).effects = _
  unfold Effectful.bind
  rw [h]

@[simp] theorem map_ok_iff (f : α → β) (m : Effectful α) (b : β) :
    (f <$> m).result = .ok b ↔ ∃ a, m.result = .ok a ∧ f a = b := by
  show (m >>= fun a => pure (f a)).result = _ ↔ _
  simp

@[simp] theorem mem_effects_map (f : α → β) (m : Effectful α) (effect : Effect) :
    effect ∈ (f <$> m).effects ↔ effect ∈ m.effects := by
  show effect ∈ (m >>= fun a => pure (f a)).effects ↔ _
  simp

@[simp] theorem effects_map (f : α → β) (m : Effectful α) : (f <$> m).effects = m.effects := by
  show (Effectful.bind m fun a => pure (f a)).effects = _
  unfold Effectful.bind
  cases m.result <;> simp

end Effectful

/-! ### The environment -/

/-- `Program`, by what running it gives. -/
structure Program where
  execute : Except JavaException ProcessOutput

/-- `CompilerOutput`; the program is `null` if the compilation failed. -/
structure CompilerOutput where
  diagnostics : List JString
  program : Option Program

/-- What the world answers during a run of the program. -/
structure Environment where
  /-- `readWholeFile` of a file of the workspace; a file that cannot be read is an
  `UncheckedIOException` -/
  readWholeFile : JString → Except JavaException JString
  /-- `new GccCompiler().compile`, with the program and the group the source was realized for:
  compilers may answer the same question differently -/
  compile : ProgramId → Group → List JString → Except JavaException CompilerOutput
  /-- loading `template.odt` -/
  loadDocument : Except JavaException Node
  /-- saving a document under a file name -/
  save : JString → Except JavaException Unit
  /-- writing the output files of all programs -/
  writeOutputs : Except JavaException Unit
  /-- the lower case of a string in the default locale -/
  toLowerCase : JString → JString

end ExamGeneratorNg
