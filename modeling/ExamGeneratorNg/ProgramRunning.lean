import ExamGeneratorNg.Effects
import ExamGeneratorNg.Placeholder
import ExamGeneratorNg.ProgramTemplateRealization

/-!
# Compiling and running programs

`ProgramTemplateCompilation` and `ProgramRunning`.
-/

namespace ExamGeneratorNg

/-- The decimal digits of a number, as in `"" + n`. -/
def toDecimal (n : ℤ) : JString :=
  (if n < 0 then [chr '-'] else []) ++ (Nat.toDigits 10 n.natAbs).map chr

/-! ### `Collectors.toMap` -/

/-- The loop of `collect(toMap(Entry::getKey, mapper))`, which throws at the first value that is
`null`. -/
def collectToMap {K V₁ V₂ : Type} [DecidableEq K] (mapper : K → V₁ → Effectful (Option V₂)) :
    List (Entry K V₁) → JMap K V₂ → Effectful (JMap K V₂)
  | [], outputMap => pure outputMap
  | entry :: entries, outputMap => do
    match ← mapper entry.1 entry.2 with
    | some value => collectToMap mapper entries (outputMap.insert entry.1 value)
    | none => Effectful.ofExcept (.error .nullPointerException)

/-- `inputMap.entrySet().stream().collect(toMap(Entry::getKey, mapper))`. -/
def toMap {K V₁ V₂ : Type} [DecidableEq K] (inputMap : JMap K V₁)
    (mapper : K → V₁ → Effectful (Option V₂)) : Effectful (JMap K V₂) :=
  collectToMap mapper inputMap.entries ∅

/-! ### `ProgramTemplateCompilation` -/

variable (env : Environment)

/-- `Program` `id` ` (group ` `identifier` `)`, the beginning of every diagnostic. -/
def programName (programId : ProgramId) (group : Group) : JString :=
  jstr "Program " ++ toDecimal programId.id ++ jstr " (group " ++ group.getIdentifier ++ jstr ")"

def compileProgramTemplate (programId : ProgramId) (programTemplate : ProgramTemplate)
    (group : Group) : Effectful CompilerOutput := do
  let sourceCode := realizeProgramTemplate programTemplate .compiler group
  let compilerOutput ← Effectful.ofExcept (env.compile programId group sourceCode.lines)
  let diagnostics := compilerOutput.diagnostics
  if !diagnostics.isEmpty then
    let compilationSucceeded := compilerOutput.program.isSome
    let diagnosticKind := if compilationSucceeded then DiagnosticKind.warning else .error
    let message := programName programId group ++ jstr ":\n" ++ joinLines diagnostics
    Effectful.perform (.diagnostic ⟨diagnosticKind, message⟩)
  pure compilerOutput

/-- `IntStream.range(0, n).mapToObj(Group::new)`, as the keys of a map to be filled. -/
def groupsFrom (n : ℕ) : List (Entry Group Unit) := (List.range n).map fun i => ⟨⟨i⟩, ()⟩

/-- `compileProgramTemplate` for all groups. -/
def compileProgramTemplateForGroups (programId : ProgramId) (programTemplate : ProgramTemplate)
    (groupCount : ℕ) : Effectful (JMap Group CompilerOutput) :=
  collectToMap
    (fun group _ => some <$> compileProgramTemplate env programId programTemplate group)
    (groupsFrom groupCount) ∅

def compileProgramTemplates (programTemplateMap : JMap ProgramId ProgramTemplate)
    (groupCount : ℕ) : Effectful (JMap ProgramId (JMap Group CompilerOutput)) :=
  toMap programTemplateMap fun programId programTemplate =>
    some <$> compileProgramTemplateForGroups env programId programTemplate groupCount

/-! ### `ProgramRunning` -/

/-- A non-zero exit code gives `null`. -/
def runProgram (programId : ProgramId) (compilerOutput : CompilerOutput) (group : Group) :
    Effectful (Option ProcessOutput) := do
  match compilerOutput.program with
  | none => Effectful.ofExcept (.error .nullPointerException)
  | some program =>
    let programProcessOutput ← Effectful.ofExcept program.execute
    let exitCode := programProcessOutput.status
    if exitCode ≠ 0 then
      let message := programName programId group ++ jstr " finished with non-zero exit code "
        ++ toDecimal exitCode
      Effectful.perform (.diagnostic ⟨.error, message⟩)
      pure none
    else pure (some programProcessOutput)

/-- Repeats `runProgram` for every program and group. -/
def runPrograms (compilerOutputMap : JMap ProgramId (JMap Group CompilerOutput)) :
    Effectful (JMap ProgramId (JMap Group ProcessOutput)) :=
  toMap compilerOutputMap fun programId compilerOutputInnerMap =>
    some <$> toMap compilerOutputInnerMap fun group compilerOutput => do
      match compilerOutput.program with
      | none => Effectful.ofExcept (.error .nullPointerException)
      | some program =>
        let programProcessOutput ← Effectful.ofExcept program.execute
        let exitCode := programProcessOutput.status
        if exitCode ≠ 0 then
          let message := programName programId group ++ jstr " finished with non-zero exit code "
            ++ toDecimal exitCode
          Effectful.perform (.diagnostic ⟨.error, message⟩)
          pure none
        else pure (some programProcessOutput)

/-- The inner part of `runPrograms` is `runProgram`. -/
theorem runPrograms_eq (compilerOutputMap : JMap ProgramId (JMap Group CompilerOutput)) :
    runPrograms compilerOutputMap
      = toMap compilerOutputMap fun programId compilerOutputInnerMap =>
          some <$> toMap compilerOutputInnerMap fun group compilerOutput =>
            runProgram programId compilerOutput group := rfl

end ExamGeneratorNg
