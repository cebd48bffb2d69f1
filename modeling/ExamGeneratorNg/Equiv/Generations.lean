import ExamGeneratorNg.Equiv.WorkspaceRuns
import ExamGeneratorNg.Ui.WorkspaceTask

/-!
# Calls of `generateExamVariantsForGroup`

A call that is interleaved with other tasks does what it does in the world of the start, as long as
the files answer it as they did at the start (`GenerationStep.right`).

What a call has done so far, with what remains to be done, is at any time the whole of what
`generateExamVariantsForGroup` does (`Generation.whole`).
-/

namespace ExamGeneratorNg.Workspace

open Promise FileTree FileStream

variable {Byte : Type} {machine : Machine (List Byte)} {path : FilePath}
  {files files' : Files (List Byte)} {generation generation' : Generation Byte}

/-! ### Statements -/

theorem openFile_eq (machine : Machine (List Byte)) (path : FilePath) (name : JString)
    (files : Files (List Byte)) :
    openFile machine (path ++ [name]) files
      = (canSave machine path name files).map fun _ => files.put (path ++ [name]) (.file []) := by
  unfold openFile canSave writeFile write
  cases machine.saves (files.get (path ++ [name])) with
  | error e => rfl
  | ok _ =>
    by_cases hwritable : files.Writable (path ++ [name])
    · rw [if_pos hwritable]
      show _ = Except.map _ (if files.Writable (path ++ [name]) then _ else _)
      rw [if_pos hwritable]
      rfl
    · rw [if_neg hwritable]
      show _ = Except.map _ (if files.Writable (path ++ [name]) then _ else _)
      rw [if_neg hwritable]
      rfl

variable (machine path files) in
/-- The statements of a call, by what they do. -/
inductive GenerationStep [Inhabited Byte] :
    Generation Byte → Generation Byte → Files (List Byte) → Prop
  | fill (group : Group) (m : JMap ProgramId EvaluatedProgramTemplate) (effects : List Effect)
    (variant : ExamVariant) (contentDom : Node)
    (hfill : fillExam (environmentOf machine path files) m group variant = .ok contentDom) :
    GenerationStep ⟨group, m, .called variant, effects⟩
      ⟨group, m, .filled variant (files.get (path ++ [templateName])) contentDom, effects⟩ files
  | fillThrows (group : Group) (m : JMap ProgramId EvaluatedProgramTemplate)
    (effects : List Effect) (variant : ExamVariant) (e : JavaException)
    (hfill : fillExam (environmentOf machine path files) m group variant = .error e) :
    GenerationStep ⟨group, m, .called variant, effects⟩
      ⟨group, m, .ended (.error (.runtimeException e)), effects⟩ files
  | openFile (group : Group) (m : JMap ProgramId EvaluatedProgramTemplate) (effects : List Effect)
    (variant : ExamVariant) (template : Files (List Byte)) (contentDom : Node)
    (hsave : canSave machine path (documentName group variant) files = .ok ()) :
    GenerationStep ⟨group, m, .filled variant template contentDom, effects⟩
      ⟨group, m, .saving variant contentDom (machine.saveDocument template contentDom) 0, effects⟩
      (files.put (path ++ [documentName group variant]) (.file []))
  | openThrows (group : Group) (m : JMap ProgramId EvaluatedProgramTemplate)
    (effects : List Effect) (variant : ExamVariant) (template : Files (List Byte))
    (contentDom : Node) (e : JavaException)
    (hsave : canSave machine path (documentName group variant) files = .error e) :
    GenerationStep ⟨group, m, .filled variant template contentDom, effects⟩
      ⟨group, m, .ended (.error (.runtimeException e)), effects⟩ files
  | writeByte (group : Group) (m : JMap ProgramId EvaluatedProgramTemplate) (effects : List Effect)
    (variant : ExamVariant) (contentDom : Node) (bytes : List Byte) (position : ℕ) (byte : Byte)
    (hbyte : bytes[position]? = some byte) :
    GenerationStep ⟨group, m, .saving variant contentDom bytes position, effects⟩
      ⟨group, m, .saving variant contentDom bytes (position + 1), effects⟩
      (writeByte (path ++ [documentName group variant]) position byte files)
  | closeFile (group : Group) (m : JMap ProgramId EvaluatedProgramTemplate) (effects : List Effect)
    (variant : ExamVariant) (contentDom : Node) (bytes : List Byte) (position : ℕ)
    (hend : bytes[position]? = none) :
    GenerationStep ⟨group, m, .saving variant contentDom bytes position, effects⟩
      ⟨group, m, .next variant, effects ++ [.document (documentName group variant) contentDom]⟩
      files

theorem generationStep_of_next [Inhabited Byte]
    (h : generation.next machine path files = some (generation', files')) :
    GenerationStep machine path files generation generation' files' := by
  obtain ⟨group, m, point, effects⟩ := generation
  cases point with
  | called variant =>
    unfold Generation.next at h
    dsimp only at h
    split at h
    · next contentDom hfill =>
      cases h
      exact .fill _ _ _ _ _ hfill
    · next e hfill =>
      cases h
      exact .fillThrows _ _ _ _ _ hfill
  | filled variant template contentDom =>
    have hopen := openFile_eq machine path (examFileName group variant) files
    unfold Generation.next at h
    dsimp only at h
    rw [hopen] at h
    cases hsave : canSave machine path (examFileName group variant) files with
    | error e =>
      rw [hsave] at h
      cases h
      exact .openThrows _ _ _ _ _ _ _ hsave
    | ok _ =>
      rw [hsave] at h
      cases h
      exact .openFile _ _ _ _ _ _ hsave
  | saving variant contentDom bytes position =>
    unfold Generation.next at h
    dsimp only at h
    split at h
    · next byte hbyte =>
      cases h
      exact .writeByte _ _ _ _ _ _ _ _ hbyte
    · next hend =>
      cases h
      exact .closeFile _ _ _ _ _ _ _ hend
  | ended result => cases h

/-- A call that has not ended can go on. -/
theorem exists_next_of_result_eq_none [Inhabited Byte] (h : generation.result = none)
    (machine : Machine (List Byte)) (path : FilePath) (files : Files (List Byte)) :
    ∃ generation' files', generation.next machine path files = some (generation', files') := by
  obtain ⟨group, m, point, effects⟩ := generation
  cases point with
  | called variant =>
    unfold Generation.next
    dsimp only
    split <;> exact ⟨_, _, rfl⟩
  | filled variant template contentDom =>
    unfold Generation.next
    dsimp only
    split <;> exact ⟨_, _, rfl⟩
  | saving variant contentDom bytes position =>
    unfold Generation.next
    dsimp only
    split <;> exact ⟨_, _, rfl⟩
  | ended result => cases h

/-! ### What remains to be done -/

variable (env : Environment)

theorem generateExamVariantForGroup_eq (m : JMap ProgramId EvaluatedProgramTemplate)
    (group : Group) (variant : ExamVariant) :
    ExamGeneratorNg.generateExamVariantForGroup env m group variant = (do
      let contentDom ← Effectful.ofExcept (fillExam env m group variant)
      Effectful.ofExcept (env.save (documentName group variant))
      Effectful.perform (.document (documentName group variant) contentDom)) := by
  unfold ExamGeneratorNg.generateExamVariantForGroup fillExam
  cases env.loadDocument with
  | error e => rfl
  | ok examTemplate =>
    show (Effectful.ofExcept (findPlaceholders examTemplate) >>= _)
      = (Effectful.ofExcept (findPlaceholders examTemplate >>= _) >>= _)
    cases findPlaceholders examTemplate with
    | error e => rfl
    | ok placeholderRefs =>
      show (Effectful.ofExcept ((fillPlaceholders _ _ _ _).run.run examTemplate).1 >>= _)
        = (Effectful.ofExcept (((fillPlaceholders _ _ _ _).run.run examTemplate).1 >>= _) >>= _)
      cases ((fillPlaceholders env.toLowerCase placeholderRefs (buildExamModel m group variant)
        variant).run.run examTemplate).1 with
      | error e => rfl
      | ok _ => rfl

/-- What remains to be done behind the exam of a variant. -/
def Generation.restAfter (generation : Generation Byte) : ExamVariant → Effectful Unit
  | .student =>
    ExamGeneratorNg.generateExamVariantForGroup env generation.programTemplateMap generation.group
      .teacher
  | .teacher => pure ()

/-- What remains to be done. -/
def Generation.rest (generation : Generation Byte) : Effectful Unit :=
  match generation.point with
  | .called variant => Effectful.wrapException do
    ExamGeneratorNg.generateExamVariantForGroup env generation.programTemplateMap generation.group
      variant
    generation.restAfter env variant
  | .filled variant _ contentDom => Effectful.wrapException do
    Effectful.ofExcept (env.save (documentName generation.group variant))
    Effectful.perform (.document (documentName generation.group variant) contentDom)
    generation.restAfter env variant
  | .saving variant contentDom _ _ => Effectful.wrapException do
    Effectful.perform (.document (documentName generation.group variant) contentDom)
    generation.restAfter env variant
  | .ended result => Effectful.ofExcept result

/-- All that a call does. -/
def Generation.whole (generation : Generation Byte) : Effectful Unit :=
  ⟨generation.effects ++ (generation.rest env).effects, (generation.rest env).result⟩

theorem bind_pure_unit (m : Effectful Unit) : (m >>= fun _ => pure ()) = m := by
  obtain ⟨effects, result⟩ := m
  cases result with
  | error e => rfl
  | ok _ => exact congrArg (Effectful.mk · _) (List.append_nil effects)

/-- The documents that a call has saved before the exam of a variant. -/
def savedBefore (group : Group) : ExamVariant → List JString
  | .student => []
  | .teacher => [documentName group .student]

/-- The local variables of a call are right; `template` is that of the workspace. -/
def Generation.PointRight (machine : Machine (List Byte)) (template : Files (List Byte))
    (generation : Generation Byte) : Prop :=
  match generation.point with
  | .called variant =>
    savedDocuments generation.effects = savedBefore generation.group variant
  | .filled variant template' _ =>
    savedDocuments generation.effects = savedBefore generation.group variant
    ∧ template' = template
  | .saving variant contentDom bytes _ =>
    savedDocuments generation.effects = savedBefore generation.group variant
    ∧ bytes = machine.saveDocument template contentDom
  | .ended _ => True

variable {env} {template : Files (List Byte)}

theorem GenerationStep.group_eq [Inhabited Byte]
    (h : GenerationStep machine path files generation generation' files') :
    generation'.group = generation.group := by
  cases h <;> rfl

/-- A statement does what was to be done next, if the files answer as the world does. -/
theorem GenerationStep.whole_eq [Inhabited Byte]
    (h : GenerationStep machine path files generation generation' files')
    (halike : Alike env (environmentOf machine path files))
    (hsave : ∀ variant template contentDom, generation.point = .filled variant template contentDom →
      canSave machine path (documentName generation.group variant) files
        = env.save (documentName generation.group variant)) :
    generation'.whole env = generation.whole env := by
  have hfillExam : ∀ m group variant, fillExam (environmentOf machine path files) m group variant
      = fillExam env m group variant := by
    intro m group variant
    unfold fillExam
    rw [halike.loadDocument, halike.toLowerCase]
  unfold Generation.whole
  cases h with
  | fill group m effects variant contentDom hfill =>
    rw [hfillExam] at hfill
    unfold Generation.rest
    dsimp only
    rw [generateExamVariantForGroup_eq, hfill]
    cases env.save (documentName group variant) <;> rfl
  | fillThrows group m effects variant e hfill =>
    rw [hfillExam] at hfill
    unfold Generation.rest
    dsimp only
    rw [generateExamVariantForGroup_eq, hfill]
    rfl
  | openFile group m effects variant template contentDom hok =>
    rw [hsave _ _ _ rfl] at hok
    unfold Generation.rest
    dsimp only at hok ⊢
    rw [hok]
    rfl
  | openThrows group m effects variant template contentDom e herror =>
    rw [hsave _ _ _ rfl] at herror
    unfold Generation.rest
    dsimp only at herror ⊢
    rw [herror]
    rfl
  | writeByte group m effects variant contentDom bytes position byte hbyte => rfl
  | closeFile group m effects variant contentDom bytes position hend =>
    have hdocument : ∀ rest : Effectful Unit,
        (Effectful.perform (.document (documentName group variant) contentDom)
          >>= fun _ => rest).effects
          = .document (documentName group variant) contentDom :: rest.effects := fun _ => rfl
    cases variant with
    | student =>
      unfold Generation.rest GenerationPoint.next Generation.restAfter
      dsimp only
      rw [bind_pure_unit, Effectful.effects_wrapException, Effectful.effects_wrapException,
        hdocument, List.append_assoc, List.singleton_append]
      rfl
    | teacher =>
      unfold Generation.rest GenerationPoint.next Generation.restAfter
      dsimp only
      rw [Effectful.effects_wrapException, hdocument, List.append_assoc]
      rfl

theorem GenerationStep.pointRight [Inhabited Byte]
    (h : GenerationStep machine path files generation generation' files')
    (htemplate : files.get (path ++ [templateName]) = template)
    (hright : generation.PointRight machine template) :
    generation'.PointRight machine template := by
  cases h with
  | fill group m effects variant contentDom hfill => exact ⟨hright, htemplate⟩
  | fillThrows group m effects variant e hfill => trivial
  | openFile group m effects variant template' contentDom hok =>
    obtain ⟨hsaved, rfl⟩ := hright
    exact ⟨hsaved, rfl⟩
  | openThrows group m effects variant template' contentDom e herror => trivial
  | writeByte group m effects variant contentDom bytes position byte hbyte => exact hright
  | closeFile group m effects variant contentDom bytes position hend =>
    cases variant with
    | student =>
      show savedDocuments (effects ++ [_]) = _
      rw [savedDocuments_append, hright.1]
      rfl
    | teacher => trivial

variable (env) in
/-- All in all, a call does what a supplier does. -/
def Generation.Does (generation : Generation Byte) (supplier : Supplier) : Prop :=
  ∃ programPipelineMap processOutputs,
    supplier = .generateExamVariants generation.group programPipelineMap processOutputs
    ∧ generation.whole env
      = runSupplier env (.generateExamVariants generation.group programPipelineMap processOutputs)

variable {supplier : Supplier}

theorem promise_of_newGeneration (h : newGeneration supplier = some generation) :
    supplier.promise = .documents generation.group := by
  cases supplier with
  | generateExamVariants group programPipelineMap processOutputs =>
    unfold newGeneration at h
    dsimp only at h
    split at h <;> cases h <;> rfl
  | _ => cases h

/-- The call that a task makes does what the task does. -/
theorem does_of_newGeneration (h : newGeneration supplier = some generation) :
    generation.Does env supplier ∧ generation.PointRight machine template := by
  cases supplier with
  | generateExamVariants group programPipelineMap processOutputs =>
    unfold newGeneration at h
    dsimp only at h
    cases hmap : evaluatedProgramTemplateMap programPipelineMap processOutputs with
    | error e =>
      rw [hmap] at h
      cases h
      refine ⟨⟨programPipelineMap, processOutputs, rfl, ?_⟩, trivial⟩
      show _ = (Effectful.ofExcept (evaluatedProgramTemplateMap programPipelineMap processOutputs)
        >>= fun m => ExamGeneratorNg.generateExamVariantsForGroup env m group)
      rw [hmap]
      rfl
    | ok m =>
      rw [hmap] at h
      cases h
      refine ⟨⟨programPipelineMap, processOutputs, rfl, ?_⟩, rfl⟩
      show _ = (Effectful.ofExcept (evaluatedProgramTemplateMap programPipelineMap processOutputs)
        >>= fun m => ExamGeneratorNg.generateExamVariantsForGroup env m group)
      rw [hmap]
      rfl
  | _ => cases h

theorem Generation.Does.promise (h : generation.Does env supplier) :
    supplier.promise = .documents generation.group := by
  obtain ⟨_, _, rfl, -⟩ := h
  rfl

theorem Generation.Does.effects_eq (h : generation.Does env supplier) :
    (generation.whole env).effects = (runSupplier env supplier).effects := by
  obtain ⟨_, _, rfl, hwhole⟩ := h
  exact congrArg Effectful.effects hwhole

/-- A call goes on as the call of the same supplier. -/
theorem Generation.Does.congr (h : generation.Does env supplier)
    (hgroup : generation'.group = generation.group)
    (hwhole : generation'.whole env = generation.whole env) : generation'.Does env supplier := by
  obtain ⟨programPipelineMap, processOutputs, hsupplier, hdoes⟩ := h
  unfold Generation.Does
  rw [hgroup, hwhole]
  exact ⟨programPipelineMap, processOutputs, hsupplier, hdoes⟩

/-- A task whose call has ended ends as it does in the world. -/
theorem Generation.Does.finish_eq (h : generation.Does env supplier)
    {result : Except JavaException Unit} (hresult : generation.result = some result)
    (s : TaskState) :
    (s.addEffects generation.effects).settle (.documents generation.group) result
      = finish env supplier s := by
  obtain ⟨group, m, point, effects⟩ := generation
  obtain ⟨programPipelineMap, processOutputs, rfl, hwhole⟩ := h
  cases point with
  | ended result' =>
    cases hresult
    unfold finish
    dsimp only
    rw [← hwhole]
    unfold Generation.whole Generation.rest
    dsimp only
    rw [Effectful.effects_ofExcept, List.append_nil]
    rfl
  | _ => cases hresult

end ExamGeneratorNg.Workspace
