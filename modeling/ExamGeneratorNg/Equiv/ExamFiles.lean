import ExamGeneratorNg.Equiv.Generations

/-!
# Exams that are saved at the same time

Calls of `generateExamVariantsForGroup` that save the same exams at the same time, in any order of
their statements.  Each statement keeps what is known of the files of a workspace: an exam that has
been opened has, or will have when those that write it have written it, the bytes of the exam, and
all other files are as they were (`ExamsKept`, `ExamsKept.statement`).
-/

namespace ExamGeneratorNg.Workspace

open FileTree FileStream

variable {Byte : Type} {machine : Machine (List Byte)} {path : FilePath}
  {start files files' : Files (List Byte)} {exams : List (JString × Files (List Byte))}
  {calls calls' : Set (Generation Byte)} {generation generation' : Generation Byte}
  {opened : Set JString}

/-! ### Streams -/

/-- The file that the call has open, and the position at which it writes. -/
def Generation.stream (generation : Generation Byte) : Option (JString × ℕ) :=
  match generation.point with
  | .saving variant _ _ position => some (documentName generation.group variant, position)
  | _ => none

/-- The positions at which calls write a file. -/
def streams (calls : Set (Generation Byte)) (name : JString) : Set ℕ :=
  {position | ∃ generation ∈ calls, generation.stream = some (name, position)}

theorem stream_saving_iff {group : Group} {m : JMap ProgramId EvaluatedProgramTemplate}
    {effects : List Effect} {variant : ExamVariant} {contentDom : Node} {bytes : List Byte}
    {position position' : ℕ} {name : JString} :
    (⟨group, m, .saving variant contentDom bytes position, effects⟩ : Generation Byte).stream
        = some (name, position')
      ↔ documentName group variant = name ∧ position = position' := by
  unfold Generation.stream
  rw [Option.some.injEq, Prod.mk.injEq]

/-- A stream that goes on, or is closed, leaves the streams of other calls alone. -/
theorem streams_subset (hold : ∀ call ∈ calls, call = generation ∨ call ∈ calls') {name : JString}
    (hnot : ∀ position, generation.stream ≠ some (name, position)) :
    streams calls name ⊆ streams calls' name := by
  rintro position ⟨call, hcall, hat⟩
  rcases hold call hcall with rfl | hmem
  · exact absurd hat (hnot position)
  · exact ⟨call, hmem, hat⟩

/-! ### The files of the exams -/

variable (path start exams) in
/-- What is known of the files of a workspace, of which those in `opened` have been opened. -/
structure ExamsKept (calls : Set (Generation Byte)) (opened : Set JString)
    (files : Files (List Byte)) : Prop where
  hasParent : ∀ name, files.HasParent (path ++ [name])
  others : ∀ name ∉ opened, ∀ rest,
    files.get (path ++ name :: rest) = start.get (path ++ name :: rest)
  exam : ∀ name ∈ opened, ∃ bytes content, (name, .file bytes) ∈ exams
    ∧ files.get (path ++ [name]) = .file content ∧ Covered bytes (streams calls name) content
  writing : ∀ call ∈ calls, ∀ name position, call.stream = some (name, position) → name ∈ opened
  saved : ∀ call ∈ calls, ∀ name ∈ savedDocuments call.effects, name ∈ opened

/-- Nothing is written. -/
theorem ExamsKept.quiet (h : ExamsKept path start exams calls opened files)
    (hold : ∀ call ∈ calls, call.stream = none ∨ call ∈ calls')
    (hnew : ∀ call ∈ calls', call ∈ calls ∨ call.stream = none
      ∧ ∀ name ∈ savedDocuments call.effects, name ∈ opened) :
    ExamsKept path start exams calls' opened files where
  hasParent := h.hasParent
  others := h.others
  exam name hname := by
    obtain ⟨bytes, content, hexam, hget, hcovered⟩ := h.exam name hname
    refine ⟨bytes, content, hexam, hget, hcovered.mono ?_⟩
    rintro position ⟨call, hcall, hat⟩
    rcases hold call hcall with hnone | hmem
    · rw [hnone] at hat
      cases hat
    · exact ⟨call, hmem, hat⟩
  writing call hcall name position hat := by
    rcases hnew call hcall with hmem | ⟨hnone, -⟩
    · exact h.writing call hmem name position hat
    · rw [hnone] at hat
      cases hat
  saved call hcall := by
    rcases hnew call hcall with hmem | ⟨-, hsaved⟩
    · exact h.saved call hmem
    · exact hsaved

/-- Something is written under a name. -/
theorem ExamsKept.put (h : ExamsKept path start exams calls opened files) {name : JString}
    {bytes content : List Byte} (hexam : (name, .file bytes) ∈ exams)
    (hcovered : Covered bytes (Workspace.streams calls' name) content)
    (hothers : ∀ name', name' ≠ name →
      Workspace.streams calls name' ⊆ Workspace.streams calls' name')
    (hwriting : ∀ call ∈ calls', ∀ name' position, call.stream = some (name', position) →
      name' = name ∨ name' ∈ opened)
    (hsaved : ∀ call ∈ calls', ∀ name' ∈ savedDocuments call.effects, name' ∈ opened) :
    ExamsKept path start exams calls' (insert name opened)
      (files.put (path ++ [name]) (.file content)) where
  hasParent name' := (hasParent_put_sibling _).mpr (h.hasParent name')
  others name' hname' rest := by
    rw [Set.mem_insert_iff, not_or] at hname'
    rw [get_put_sibling (Ne.symm hname'.1), h.others name' hname'.2]
  exam name' hname' := by
    by_cases heq : name' = name
    · subst heq
      exact ⟨bytes, content, hexam, get_put (h.hasParent name') _, hcovered⟩
    · obtain ⟨bytes', content', hexam', hget, hcovered'⟩ :=
        h.exam name' (hname'.resolve_left heq)
      refine ⟨bytes', content', hexam', ?_, hcovered'.mono (hothers name' heq)⟩
      rw [get_put_sibling (Ne.symm heq), hget]
  writing call hcall name' position hat := hwriting call hcall name' position hat
  saved call hcall name' hname' := .inr (hsaved call hcall name' hname')

/-- Every exam has one content. -/
theorem bytes_eq_of_nodup (hnodup : (exams.map Prod.fst).Nodup) {name : JString}
    {bytes bytes' : List Byte} (h : (name, .file bytes) ∈ exams)
    (h' : (name, .file bytes') ∈ exams) : bytes = bytes' := by
  have heq := List.inj_on_of_nodup_map hnodup h h' rfl
  cases heq
  rfl

/-- **A statement keeps the exams**: a call goes on, which is one of `calls` before and one of
`calls'` after the statement. -/
theorem ExamsKept.statement [Inhabited Byte] (h : ExamsKept path start exams calls opened files)
    (hnodup : (exams.map Prod.fst).Nodup)
    (hstep : GenerationStep machine path files generation generation' files')
    (hmem : generation ∈ calls) (hmem' : generation' ∈ calls')
    (hold : ∀ call ∈ calls, call = generation ∨ call ∈ calls')
    (hnew : ∀ call ∈ calls', call = generation' ∨ call ∈ calls)
    (hexam : ∀ call, call = generation ∨ call = generation' →
      ∀ variant contentDom bytes position, call.point = .saving variant contentDom bytes position →
        (documentName call.group variant, .file bytes) ∈ exams) :
    ∃ opened', opened ⊆ opened' ∧ ExamsKept path start exams calls' opened' files' := by
  -- a statement that opens, writes and closes nothing
  have hquiet : files' = files → generation.stream = none → generation'.stream = none →
      generation'.effects = generation.effects →
      ∃ opened', opened ⊆ opened' ∧ ExamsKept path start exams calls' opened' files' := by
    rintro rfl hnone hnone' heffects
    refine ⟨opened, subset_rfl, h.quiet (fun call hcall => ?_) fun call hcall => ?_⟩
    · rcases hold call hcall with rfl | hcall
      · exact .inl hnone
      · exact .inr hcall
    · rcases hnew call hcall with rfl | hcall
      · rw [heffects]
        exact .inr ⟨hnone', h.saved generation hmem⟩
      · exact .inl hcall
  have hsaved := h.saved generation hmem
  cases hstep with
  | fill group m effects variant contentDom hfill =>
    exact hquiet rfl rfl rfl rfl
  | fillThrows group m effects variant e hfill =>
    exact hquiet rfl rfl rfl rfl
  | openFile group m effects variant template contentDom hok =>
    have hat : (⟨group, m, .saving variant contentDom (machine.saveDocument template contentDom) 0,
        effects⟩ : Generation Byte).stream = some (documentName group variant, 0) :=
      stream_saving_iff.mpr ⟨rfl, rfl⟩
    refine ⟨_, Set.subset_insert _ _, h.put (hexam _ (.inr rfl) _ _ _ _ rfl)
      (Covered.of_opened _ ⟨_, hmem', hat⟩) (fun name _ => ?_)
      (fun call hcall name position hat' => ?_) fun call hcall => ?_⟩
    · exact streams_subset hold fun _ hat => nomatch hat
    · rcases hnew call hcall with rfl | hcall
      · exact .inl (stream_saving_iff.mp hat').1.symm
      · exact .inr (h.writing call hcall name position hat')
    · rcases hnew call hcall with rfl | hcall
      · exact hsaved
      · exact h.saved call hcall
  | openThrows group m effects variant template contentDom e herror =>
    exact hquiet rfl rfl rfl rfl
  | writeByte group m effects variant contentDom bytes position byte hbyte =>
    have hbytes := hexam _ (.inl rfl) _ _ _ _ rfl
    obtain ⟨bytes', content, hexam', hget, hcovered⟩ :=
      h.exam _ (h.writing _ hmem _ position (stream_saving_iff.mpr ⟨rfl, rfl⟩))
    obtain rfl := bytes_eq_of_nodup hnodup hexam' hbytes
    have hread : files.read (path ++ [documentName group variant]) = some content := by
      unfold FileTree.read
      rw [hget]
    have hnext : position + 1 ∈ streams calls' (documentName group variant) :=
      ⟨_, hmem', stream_saving_iff.mpr ⟨rfl, rfl⟩⟩
    have hwritten := hcovered.write hbyte (fun p ⟨call, hcall, hat⟩ hne => ?_) hnext
    · unfold writeByte
      rw [hread]
      refine ⟨_, Set.subset_insert _ _, h.put hbytes hwritten (fun name hname => ?_)
        (fun call hcall name position' hat => ?_) fun call hcall => ?_⟩
      · exact streams_subset hold fun _ hat => hname (stream_saving_iff.mp hat).1.symm
      · rcases hnew call hcall with rfl | hcall
        · exact .inl (stream_saving_iff.mp hat).1.symm
        · exact .inr (h.writing call hcall name position' hat)
      · rcases hnew call hcall with rfl | hcall
        · exact hsaved
        · exact h.saved call hcall
    · rcases hold call hcall with rfl | hcall
      · exact absurd (stream_saving_iff.mp hat).2.symm hne
      · exact ⟨call, hcall, hat⟩
  | closeFile group m effects variant contentDom bytes position hend =>
    have hopened := h.writing _ hmem _ position (stream_saving_iff.mpr ⟨rfl, rfl⟩)
    have hnone : (⟨group, m, .next variant,
        effects ++ [.document (documentName group variant) contentDom]⟩ : Generation Byte).stream
          = none := by
      cases variant <;> rfl
    refine ⟨opened, subset_rfl, h.hasParent, h.others, fun name hname => ?_,
      fun call hcall name position' hat => ?_, fun call hcall name hname => ?_⟩
    · obtain ⟨bytes', content, hexam', hget, hcovered⟩ := h.exam name hname
      by_cases heq : documentName group variant = name
      · subst heq
        obtain rfl := bytes_eq_of_nodup hnodup hexam' (hexam _ (.inl rfl) _ _ _ _ rfl)
        refine ⟨bytes', content, hexam', hget,
          hcovered.close hend fun p ⟨call, hcall, hat⟩ hne => ?_⟩
        rcases hold call hcall with rfl | hcall
        · exact absurd (stream_saving_iff.mp hat).2.symm hne
        · exact ⟨call, hcall, hat⟩
      · exact ⟨bytes', content, hexam', hget, hcovered.mono
          (streams_subset hold fun _ hat => heq (stream_saving_iff.mp hat).1)⟩
    · rcases hnew call hcall with rfl | hcall
      · rw [hnone] at hat
        cases hat
      · exact h.writing call hcall name position' hat
    · rcases hnew call hcall with rfl | hcall
      · rw [savedDocuments_append, List.mem_append] at hname
        rcases hname with hbefore | hlast
        · exact hsaved name hbefore
        · exact List.mem_singleton.mp hlast ▸ hopened
      · exact h.saved call hcall name hname

end ExamGeneratorNg.Workspace
