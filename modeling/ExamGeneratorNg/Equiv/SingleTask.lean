import ExamGeneratorNg.Equiv.WorkspaceTask

/-!
# A task that has the files for itself

A `ProjectTask` that works on files that nothing else changes has the states that it has in the
world of the start, in any world and whether it fails or not, and the files are at any time those of
the start with what it has written of its exams (`run_projectTaskOnFiles`).  So what is known of
tasks in an `Environment` holds on files as well.
-/

namespace ExamGeneratorNg.Workspace

open Promise FileTree FileStream

variable {Byte : Type} {machine : Machine (List Byte)} {path : FilePath}
  {start files : Files (List Byte)} {s s' : TaskOnFiles Byte}
  {entries entries' : Set (JString × Files (List Byte))}

/-! ### Files with some entries -/

variable (path start) in
/-- The files are those of the start with some entries in a directory. -/
structure FilesWith (entries : Set (JString × Files (List Byte))) (files : Files (List Byte)) :
    Prop where
  hasParent : ∀ name, files.HasParent (path ++ [name]) ↔ start.HasParent (path ++ [name])
  entry : ∀ name u, (name, u) ∈ entries → files.get (path ++ [name]) = u
  others : ∀ name, (∀ u, (name, u) ∉ entries) →
    files.get (path ++ [name]) = start.get (path ++ [name])
  elsewhere : ∀ path' content, (∀ name u, (name, u) ∈ entries → ¬ path ++ [name] <+: path') →
    (files.get path' = .file content ↔ start.get path' = .file content)

/-- Something is put into the directory, in place of what has been put there under its name. -/
theorem FilesWith.put (h : FilesWith path start entries files) {name : JString}
    {u : Files (List Byte)} (hparent : files.HasParent (path ++ [name]))
    (hmem : (name, u) ∈ entries')
    (hsubset : ∀ entry ∈ entries', entry = (name, u) ∨ entry ∈ entries ∧ entry.1 ≠ name)
    (hsubset' : ∀ entry ∈ entries, entry.1 = name ∨ entry ∈ entries') :
    FilesWith path start entries' (files.put (path ++ [name]) u) where
  hasParent name' := (hasParent_put_sibling u).trans (h.hasParent name')
  entry name' u' hentry := by
    rcases hsubset _ hentry with heq | ⟨hold, hne⟩
    · cases heq
      exact get_put hparent u
    · rw [get_put_sibling (Ne.symm hne)]
      exact h.entry name' u' hold
  others name' hnot := by
    have hne : name ≠ name' := by
      rintro rfl
      exact hnot u hmem
    rw [get_put_sibling hne]
    refine h.others name' fun u' hentry => ?_
    rcases hsubset' _ hentry with heq | hnew
    · exact hne heq.symm
    · exact hnot u' hnew
  elsewhere path' content hnot := by
    rw [get_put_eq_file_iff (hnot name u hmem)]
    refine h.elsewhere path' content fun name' u' hentry => ?_
    rcases hsubset' _ hentry with heq | hnew
    · rw [show name' = name from heq]
      exact hnot name u hmem
    · exact hnot name' u' hnew

/-! ### What a task has written -/

variable (machine path start) in
/-- What a call has written: the exams that it has saved, and what there is of the one it is
saving. -/
def Generation.written (generation : Generation Byte) : List (JString × Files (List Byte)) :=
  examFiles machine (start.get (path ++ [templateName])) generation.effects
    ++ match generation.point with
      | .saving variant _ bytes position =>
        [(documentName generation.group variant, .file (bytes.take position))]
      | _ => []

variable (machine path start) in
/-- What a task has written, but for its call for a group. -/
def TaskOnFiles.writtenElsewhere (s : TaskOnFiles Byte) (group : Group) :
    Set (JString × Files (List Byte)) :=
  {entry | entry ∈ examFiles machine (start.get (path ++ [templateName])) s.task.world.effects
    ∨ ∃ group' generation, group' ≠ group ∧ s.generations.lookup group' = some generation
      ∧ entry ∈ generation.written machine path start}

variable (machine path start) in
/-- What a task has written. -/
def TaskOnFiles.written (s : TaskOnFiles Byte) : Set (JString × Files (List Byte)) :=
  {entry | entry ∈ examFiles machine (start.get (path ++ [templateName])) s.task.world.effects
    ∨ ∃ group generation, s.generations.lookup group = some generation
      ∧ entry ∈ generation.written machine path start}

variable {group : Group} {generation : Generation Byte} {entry : JString × Files (List Byte)}

theorem mem_written_iff (hlookup : s.generations.lookup group = some generation) :
    entry ∈ s.written machine path start
      ↔ entry ∈ s.writtenElsewhere machine path start group
        ∨ entry ∈ generation.written machine path start := by
  constructor
  · rintro (htask | ⟨group', generation', hlookup', hentry⟩)
    · exact .inl (.inl htask)
    · by_cases hgroup : group' = group
      · subst hgroup
        obtain rfl := Option.some.inj (hlookup'.symm.trans hlookup)
        exact .inr hentry
      · exact .inl (.inr ⟨group', generation', hgroup, hlookup', hentry⟩)
  · rintro ((htask | ⟨group', generation', -, hlookup', hentry⟩) | hentry)
    · exact .inl htask
    · exact .inr ⟨group', generation', hlookup', hentry⟩
    · exact .inr ⟨group, generation, hlookup, hentry⟩

theorem mem_writtenElsewhere_append {effects : List Effect}
    (heffects : s'.task.world.effects = s.task.world.effects ++ effects)
    (hlookup : ∀ group' ≠ group, s'.generations.lookup group' = s.generations.lookup group') :
    entry ∈ s'.writtenElsewhere machine path start group
      ↔ entry ∈ s.writtenElsewhere machine path start group
        ∨ entry ∈ examFiles machine (start.get (path ++ [templateName])) effects := by
  have hcalls : (∃ group' generation, group' ≠ group
      ∧ s'.generations.lookup group' = some generation
      ∧ entry ∈ generation.written machine path start)
      ↔ ∃ group' generation, group' ≠ group ∧ s.generations.lookup group' = some generation
        ∧ entry ∈ generation.written machine path start := by
    refine exists_congr fun group' => exists_congr fun generation => and_congr_right fun hne => ?_
    rw [hlookup group' hne]
  unfold TaskOnFiles.writtenElsewhere
  rw [Set.mem_ofPred_eq, Set.mem_ofPred_eq, heffects, examFiles_append, List.mem_append, hcalls,
    or_right_comm]

theorem writtenElsewhere_congr (htask : s'.task = s.task)
    (hlookup : ∀ group' ≠ group, s'.generations.lookup group' = s.generations.lookup group') :
    s'.writtenElsewhere machine path start group
      = s.writtenElsewhere machine path start group := by
  ext entry
  have heffects : s'.task.world.effects = s.task.world.effects ++ [] := by
    rw [htask, List.append_nil]
  exact (mem_writtenElsewhere_append heffects hlookup).trans (or_iff_left List.not_mem_nil)

section

variable {task : TaskState} {generations : JMap Group (Generation Byte)}

/-- What a call writes is of its group. -/
theorem TaskRight.mem_groupDocuments (h : TaskRight machine path start task generations)
    (hlookup : generations.lookup group = some generation)
    (hentry : entry ∈ generation.written machine path start) :
    entry.1 ∈ groupDocuments generation.group := by
  obtain ⟨-, -, supplier, -, hdoes⟩ := h.generations group generation hlookup
  rcases List.mem_append.mp hentry with hsaved | hsaving
  · have hname : entry.1 ∈ savedDocuments
        (generation.whole (environmentOf machine path start)).effects := by
      show entry.1 ∈ savedDocuments (generation.effects ++ _)
      rw [savedDocuments_append,
        ← @map_fst_examFiles _ machine (start.get (path ++ [templateName]))]
      exact List.mem_append_left _ (List.mem_map_of_mem hsaved)
    rw [hdoes.effects_eq] at hname
    rcases savedDocuments_runSupplier (environmentOf machine path start) supplier with
      hnil | ⟨group', hpromise, hprefix⟩
    · rw [hnil] at hname
      cases hname
    · rw [hdoes.promise] at hpromise
      cases hpromise
      exact hprefix.subset hname
  · split at hsaving
    · next variant contentDom bytes position hpoint =>
      rw [List.mem_singleton.mp hsaving]
      exact documentName_mem_groupDocuments _ _
    · cases hsaving

/-- The exam that a call is about to save has not been saved by it. -/
theorem TaskRight.ne_documentName (h : TaskRight machine path start task generations)
    (hlookup : generations.lookup group = some generation) {variant : ExamVariant}
    (hbefore : savedDocuments generation.effects = savedBefore generation.group variant)
    (hentry : entry ∈ examFiles machine (start.get (path ++ [templateName])) generation.effects) :
    entry.1 ≠ documentName generation.group variant := by
  have hname : entry.1 ∈ savedBefore generation.group variant := by
    rw [← hbefore, ← @map_fst_examFiles _ machine (start.get (path ++ [templateName]))]
    exact List.mem_map_of_mem hentry
  cases variant with
  | student => cases hname
  | teacher =>
    rw [List.mem_singleton.mp hname]
    have hnodup := nodup_groupDocuments (h.isGroup hlookup)
    exact fun heq => (List.nodup_cons.mp hnodup).1 (List.mem_singleton.mpr heq)

end

/-- The exams of a call have not been written by anything else. -/
theorem TaskRight.ne_documentName_elsewhere
    (h : TaskRight machine path start s.task s.generations)
    (hlookup : s.generations.lookup group = some generation) (variant : ExamVariant)
    (hentry : entry ∈ s.writtenElsewhere machine path start group) :
    entry.1 ≠ documentName generation.group variant := by
  obtain ⟨hgroup, -, supplier, hmem, hdoes⟩ := h.generations group generation hlookup
  have hname := documentName_mem_groupDocuments generation.group variant
  rcases hentry with htask | ⟨group', generation', hne, hlookup', hentry⟩
  · obtain ⟨past, hpast⟩ := h.reachable.history
    have hnot := notMem_savedDocuments hpast hmem hdoes.promise hname
    rw [← @map_fst_examFiles _ machine (start.get (path ++ [templateName]))] at hnot
    exact fun heq => hnot (heq ▸ List.mem_map_of_mem htask)
  · intro heq
    have hname' := h.mem_groupDocuments hlookup' hentry
    rw [heq] at hname'
    obtain ⟨hgroup', -⟩ := h.generations group' generation' hlookup'
    have hsame := group_of_mem_groupDocuments (h.isGroup hlookup') (h.isGroup hlookup) hname' hname
    exact hne (hgroup'.symm.trans (hsame.trans hgroup))

theorem mem_written_iff_of_lookup_eq_none (hlookup : s.generations.lookup group = none) :
    entry ∈ s.written machine path start
      ↔ entry ∈ s.writtenElsewhere machine path start group := by
  refine or_congr Iff.rfl (exists_congr fun group' => exists_congr fun generation' => ?_)
  refine ⟨fun ⟨hlookup', hentry⟩ => ⟨?_, hlookup', hentry⟩, fun ⟨_, hrest⟩ => hrest⟩
  rintro rfl
  rw [hlookup] at hlookup'
  cases hlookup'

theorem written_of_stream (h : generation.stream = none) :
    generation.written machine path start
      = examFiles machine (start.get (path ++ [templateName])) generation.effects := by
  obtain ⟨group, m, point, effects⟩ := generation
  cases point with
  | saving variant contentDom bytes position => cases h
  | _ => exact List.append_nil _

/-! ### Runs -/

variable (machine path start) in
/-- What is known of a task that has the files for itself. -/
structure Alone (s : TaskOnFiles Byte) : Prop where
  right : TaskRight machine path start s.task s.generations
  files : FilesWith path start (s.written machine path start) s.files

/-- Only exams are written. -/
theorem Alone.mem_examDocuments (h : Alone machine path start s)
    (hentry : entry ∈ s.written machine path start) : entry.1 ∈ examDocuments := by
  rcases hentry with htask | ⟨group, generation, hlookup, hentry⟩
  · obtain ⟨past, hpast⟩ := h.right.reachable.history
    refine (account_of_history hpast).savedDocuments_subset ?_
    rw [← @map_fst_examFiles _ machine (start.get (path ++ [templateName]))]
    exact List.mem_map_of_mem htask
  · exact groupDocuments_subset (h.right.isGroup hlookup)
      (h.right.mem_groupDocuments hlookup hentry)

/-- The files answer the task as they did at the start. -/
theorem Alone.answersAlike (h : Alone machine path start s) :
    AnswersAlike machine path start s.files s.generations where
  alike := alike_environmentOf fun name hname => h.files.others name fun u hentry =>
    hname (List.mem_cons_of_mem _ (h.mem_examDocuments hentry))
  template := h.files.others templateName fun u hentry =>
    templateName_notMem (h.mem_examDocuments hentry)
  save group generation hlookup variant template contentDom hpoint := by
    refine canSave_congr (h.files.hasParent _) (h.files.others _ fun u hentry => ?_)
    rcases (mem_written_iff hlookup).mp hentry with helsewhere | hown
    · exact h.right.ne_documentName_elsewhere hlookup variant helsewhere rfl
    · obtain ⟨-, hright, -⟩ := h.right.generations group generation hlookup
      unfold Generation.PointRight at hright
      rw [hpoint] at hright
      rw [written_of_stream (by unfold Generation.stream; rw [hpoint])] at hown
      exact h.right.ne_documentName hlookup hright.1 hown rfl

/-- A call writes something of an exam that it has not saved. -/
theorem FilesWith.statement {generation' : Generation Byte}
    (h : FilesWith path start (s.written machine path start) s.files)
    (hright : TaskRight machine path start s.task s.generations)
    (hlookup : s.generations.lookup group = some generation) {variant : ExamVariant}
    (hsaved : savedDocuments generation.effects = savedBefore generation.group variant)
    (hstream : ∀ name position, generation.stream = some (name, position) →
      name = documentName generation.group variant)
    (hparent : s.files.HasParent (path ++ [documentName generation.group variant]))
    {u : Files (List Byte)} (hlookup' : s'.generations.lookup group = some generation')
    (hwritten' : generation'.written machine path start
      = examFiles machine (start.get (path ++ [templateName])) generation.effects
        ++ [(documentName generation.group variant, u)])
    (helsewhere : s'.writtenElsewhere machine path start group
      = s.writtenElsewhere machine path start group) :
    FilesWith path start (s'.written machine path start)
      (s.files.put (path ++ [documentName generation.group variant]) u) := by
  refine h.put hparent ?_ (fun entry hentry => ?_) fun entry hentry => ?_
  · rw [mem_written_iff hlookup', hwritten']
    exact .inr (List.mem_append_right _ List.mem_cons_self)
  · rw [mem_written_iff hlookup', hwritten', helsewhere, List.mem_append, List.mem_singleton]
      at hentry
    rcases hentry with hentry | hentry | heq
    · exact .inr ⟨(mem_written_iff hlookup).mpr (.inl hentry),
        hright.ne_documentName_elsewhere hlookup variant hentry⟩
    · exact .inr ⟨(mem_written_iff hlookup).mpr (.inr (List.mem_append_left _ hentry)),
        hright.ne_documentName hlookup hsaved hentry⟩
    · exact .inl heq
  · rw [mem_written_iff hlookup', hwritten', helsewhere, List.mem_append]
    rcases (mem_written_iff hlookup).mp hentry with hentry | hentry
    · exact .inr (.inl hentry)
    · rcases List.mem_append.mp hentry with hentry | hentry
      · exact .inr (.inr (.inl hentry))
      · split at hentry
        · next variant' contentDom bytes position hpoint =>
          obtain rfl := List.mem_singleton.mp hentry
          exact .inl (hstream _ position (by unfold Generation.stream; rw [hpoint]))
        · cases hentry

/-- A step of a task that has the files for itself. -/
theorem Alone.step [Inhabited Byte] (h : Alone machine path start s)
    (hstep : TaskStep machine path s s') : Alone machine path start s' := by
  refine ⟨hstep.right h.right h.answersAlike, ?_⟩
  have halike := h.answersAlike
  have hfiles := h.files
  obtain ⟨past, hpast⟩ := h.right.reachable.history
  cases hstep with
  | task action task hsaves hnext =>
    rw [← halike.next_eq hsaves] at hnext
    obtain ⟨effects, heffects, hnone⟩ := exists_effects_of_next hpast hnext hsaves
    unfold TaskOnFiles.written
    dsimp only
    rw [heffects, examFiles_append, examFiles_eq_nil hnone, List.append_nil]
    exact hfiles
  | generate supplier generation hmem hnew hpromise hfresh =>
    obtain ⟨hstream, hnothing⟩ := stream_of_newGeneration hnew
    have hlookup : s.generations.lookup generation.group = none := AList.lookup_eq_none.mpr hfresh
    have helsewhere : (⟨s.task, s.generations.insert generation.group generation, s.files⟩ :
        TaskOnFiles Byte).writtenElsewhere machine path start generation.group
          = s.writtenElsewhere machine path start generation.group :=
      writtenElsewhere_congr rfl fun _ hne => AList.lookup_insert_ne hne
    have hsame : (⟨s.task, s.generations.insert generation.group generation, s.files⟩ :
        TaskOnFiles Byte).written machine path start = s.written machine path start := by
      ext entry
      rw [mem_written_iff (AList.lookup_insert _), mem_written_iff_of_lookup_eq_none hlookup,
        helsewhere, written_of_stream hstream, examFiles_eq_nil hnothing]
      exact or_iff_left List.not_mem_nil
    rwa [hsame]
  | statement group generation generation' files hlookup hstep =>
    have hlookup' : (s.generations.insert group generation').lookup group = some generation' :=
      AList.lookup_insert _
    have helsewhere : (⟨s.task, s.generations.insert group generation', files⟩ :
        TaskOnFiles Byte).writtenElsewhere machine path start group
          = s.writtenElsewhere machine path start group :=
      writtenElsewhere_congr rfl fun _ hne => AList.lookup_insert_ne hne
    -- a statement that writes nothing
    have hquiet : files = s.files →
        generation'.written machine path start = generation.written machine path start →
        FilesWith path start ((⟨s.task, s.generations.insert group generation', files⟩ :
          TaskOnFiles Byte).written machine path start) files := by
      rintro rfl hwritten
      have hsame : (⟨s.task, s.generations.insert group generation', s.files⟩ :
          TaskOnFiles Byte).written machine path start = s.written machine path start := by
        ext entry
        rw [mem_written_iff hlookup', mem_written_iff hlookup, hwritten, helsewhere]
      rwa [hsame]
    obtain ⟨-, hpoint, -⟩ := h.right.generations group generation hlookup
    cases hstep with
    | fill group' m effects variant contentDom hfill => exact hquiet rfl rfl
    | fillThrows group' m effects variant e hfill => exact hquiet rfl rfl
    | openFile group' m effects variant template contentDom hok =>
      have hparent := (canSave_ok_iff.mp hok).2.1
      exact hfiles.statement h.right hlookup hpoint.1 nofun hparent hlookup' rfl helsewhere
    | openThrows group' m effects variant template contentDom e herror => exact hquiet rfl rfl
    | writeByte group' m effects variant contentDom bytes position byte hbyte =>
      have hget := hfiles.entry (documentName group' variant) (.file (bytes.take position))
        ((mem_written_iff hlookup).mpr (.inr (List.mem_append_right _ List.mem_cons_self)))
      have hread : s.files.read (path ++ [documentName group' variant])
          = some (bytes.take position) := by
        unfold FileTree.read
        rw [hget]
      unfold writeByte
      rw [hread]
      dsimp only [Option.getD_some]
      rw [writeAt_take hbyte]
      refine hfiles.statement h.right hlookup hpoint.1 ?_ (hasParent_of_get hget) hlookup' rfl
        helsewhere
      exact fun name _ hstream => (stream_saving_iff.mp hstream).1.symm
    | closeFile group' m effects variant contentDom bytes position hend =>
      refine hquiet rfl ?_
      obtain ⟨-, rfl⟩ := hpoint
      rw [written_of_stream (by cases variant <;> rfl), examFiles_append]
      unfold Generation.written
      dsimp only
      rw [List.take_of_length_le (List.getElem?_eq_none_iff.mp hend)]
      rfl
  | generated group generation result task hlookup hresult hnext =>
    have heffects : task.world.effects = s.task.world.effects ++ generation.effects := by
      rw [System.next_task] at hnext
      obtain ⟨supplier, -, rfl⟩ := Option.map_eq_some_iff.mp hnext
      dsimp only
      rw [State.settle_world]
      rfl
    have helsewhere : ∀ entry, entry ∈ (⟨task, s.generations.erase group, s.files⟩ :
        TaskOnFiles Byte).writtenElsewhere machine path start group
          ↔ entry ∈ s.writtenElsewhere machine path start group
            ∨ entry ∈ examFiles machine (start.get (path ++ [templateName])) generation.effects :=
      fun _ => mem_writtenElsewhere_append heffects fun _ hne => AList.lookup_erase_ne hne
    have hsame : (⟨task, s.generations.erase group, s.files⟩ :
        TaskOnFiles Byte).written machine path start = s.written machine path start := by
      ext entry
      rw [mem_written_iff_of_lookup_eq_none (AList.lookup_erase _ _), mem_written_iff hlookup,
        written_of_stream (stream_of_result hresult)]
      exact helsewhere entry
    rwa [hsame]

theorem alone_of_leads [Inhabited Byte]
    (hleads : (projectTaskOnFiles machine path).Leads ⟨newProjectTask, ∅, start⟩ s) :
    Alone machine path start s := by
  refine hleads.invariant (fun action s s' h hnext => h.step (taskStep_of_next hnext))
    ⟨⟨⟨[], rfl⟩, fun group generation hlookup => ?_⟩, fun _ => Iff.rfl, fun name u hentry => ?_,
      fun _ _ => rfl, fun _ _ _ => Iff.rfl⟩
  · rw [AList.lookup_empty] at hlookup
    cases hlookup
  · rcases hentry with htask | ⟨group, generation, hlookup, -⟩
    · cases htask
    · rw [AList.lookup_empty] at hlookup
      cases hlookup

/-- When nothing can happen in the task any more, it has come to its end in the world of the start
as well. -/
theorem Alone.quiescent [Inhabited Byte] (h : Alone machine path start s)
    (hstuck : (projectTaskOnFiles machine path).Stuck s) :
    (projectTask (environmentOf machine path start)).Quiescent s.task
    ∧ ∀ group, s.generations.lookup group = none :=
  h.right.quiescent hstuck h.answersAlike

/-- **A task that has the files for itself** behaves as in the world of the start, in any world and
whether it fails or not: at any time, its state is one that it reaches there, at the end of a run
too, the exams that it has saved are in their places, with what there is of those that it is saving,
and no other file has changed. -/
theorem run_projectTaskOnFiles [Inhabited Byte]
    (hleads : (projectTaskOnFiles machine path).Leads ⟨newProjectTask, ∅, start⟩ s) :
    (projectTask (environmentOf machine path start)).Reachable newProjectTask s.task
    ∧ ((projectTaskOnFiles machine path).Stuck s →
      (projectTask (environmentOf machine path start)).Quiescent s.task)
    ∧ (∀ name u, (name, u) ∈ s.written machine path start → s.files.get (path ++ [name]) = u)
    ∧ ∀ path' content,
      (∀ name u, (name, u) ∈ s.written machine path start → ¬ path ++ [name] <+: path') →
      (s.files.get path' = .file content ↔ start.get path' = .file content) := by
  have halone := alone_of_leads hleads
  exact ⟨halone.right.reachable, fun hstuck => (halone.quiescent hstuck).1, halone.files.entry,
    halone.files.elsewhere⟩

/-- Nothing can happen in a task that has come to its end. -/
theorem stuck_of_quiescent [Inhabited Byte] {env : Environment}
    (hquiescent : (projectTask env).Quiescent s.task) (hkeys : s.generations.keys = []) :
    (projectTaskOnFiles machine path).Stuck s := by
  intro action
  by_contra hsome
  obtain ⟨s', hnext⟩ := Option.ne_none_iff_exists'.mp hsome
  have hnone : ∀ group generation, s.generations.lookup group ≠ some generation := by
    intro group generation hlookup
    have hmem := AList.lookup_isSome.mp (Option.isSome_of_eq_some hlookup)
    rw [AList.mem_keys, hkeys] at hmem
    cases hmem
  have hstep := taskStep_of_next hnext
  clear hnext
  cases hstep with
  | task action task hsaves hnext =>
    have hquiescent' : (projectTask (environmentOf machine path s.files)).Quiescent s.task :=
      hquiescent
    rw [System.quiescent_iff.mp hquiescent' action] at hnext
    cases hnext
  | generate supplier generation hmem hnew hpromise hfresh =>
    rw [hquiescent.1] at hmem
    cases hmem
  | statement group generation generation' files hlookup hstep => exact hnone _ _ hlookup
  | generated group generation result task hlookup hresult hnext => exact hnone _ _ hlookup

instance : Inhabited (JString ⊕ Node) := ⟨.inl []⟩

/-- What may be possible next in a task. -/
def exampleActions (s : TaskOnFiles (JString ⊕ Node)) : List TaskAction :=
  let sys := projectTask (environmentOf exampleMachine examplePath s.files)
  let calls := [Group.A, Group.B].flatMap fun group =>
    [TaskAction.statement group, .generated group, .generate group]
  let tasks := s.task.tasks.map fun supplier => TaskAction.task supplier.promise
  let callbacks := s.task.callbacks.map fun callback => .callback (sys.source callback)
  calls ++ tasks ++ callbacks

/-- A task on a workspace, after some statements. -/
def exampleTask (start : Files (List (JString ⊕ Node))) (turns : ℕ) :
    TaskOnFiles (JString ⊕ Node) :=
  (projectTaskOnFiles exampleMachine examplePath).runTurns
    (List.replicate turns exampleActions) ⟨newProjectTask, ∅, start⟩

theorem leads_exampleTask (start : Files (List (JString ⊕ Node))) (turns : ℕ) :
    (projectTaskOnFiles exampleMachine examplePath).Leads ⟨newProjectTask, ∅, start⟩
      (exampleTask start turns) :=
  Transition.System.leads_runTurns _ _

/-- The workspace with one program, where the last exam cannot be saved. -/
def exampleBlockedFiles : Files (List (JString ⊕ Node)) :=
  exampleFiles.put (examplePath ++ [documentName Group.B .teacher]) emptyDirectory

/-- The task has failed, and the other exams are there. -/
theorem run_projectTaskOnFiles_example : ∃ s : TaskOnFiles (JString ⊕ Node),
    (projectTask (environmentOf exampleMachine examplePath exampleBlockedFiles)).Reachable
      newProjectTask s.task
    ∧ (projectTask (environmentOf exampleMachine examplePath exampleBlockedFiles)).Quiescent s.task
    ∧ getState s.task = .failed
    ∧ (∃ content, s.files.get (examplePath ++ [documentName Group.B .student]) = .file content)
    ∧ s.files.get [jstr "notes"] = .file [] := by
  have hend : (projectTask (environmentOf exampleMachine examplePath exampleBlockedFiles)).Quiescent
        (exampleTask exampleBlockedFiles 60).task
      ∧ (exampleTask exampleBlockedFiles 60).generations.keys = []
      ∧ getState (exampleTask exampleBlockedFiles 60).task = .failed
      ∧ savedDocuments (exampleTask exampleBlockedFiles 60).task.world.effects
        = [documentName Group.A .student, documentName Group.A .teacher,
          documentName Group.B .student] := by
    decide +kernel
  obtain ⟨hquiescent, hkeys, hfailed, hsaved⟩ := hend
  obtain ⟨hreachable, hstuck, hwritten, hothers⟩ :=
    run_projectTaskOnFiles (leads_exampleTask exampleBlockedFiles 60)
  refine ⟨_, hreachable, hstuck (stuck_of_quiescent hquiescent hkeys), hfailed, ?_,
    (hothers _ _ ?_).mpr rfl⟩
  · have hmem : documentName Group.B .student
        ∈ savedDocuments (exampleTask exampleBlockedFiles 60).task.world.effects := by
      rw [hsaved]
      decide
    obtain ⟨contentDom, hdocument⟩ := mem_savedDocuments.mp hmem
    exact ⟨_, hwritten _ _ (.inl (List.mem_filterMap.mpr ⟨_, hdocument, rfl⟩))⟩
  · exact fun name u _ hprefix => absurd (List.cons_prefix_cons.mp hprefix).1 (by decide)

end ExamGeneratorNg.Workspace
