import ExamGeneratorNg.Equiv.ExamFiles

/-!
# Tasks on the files of a workspace

A `ProjectTask` on files that it changes itself, statement by statement, and that others may change
as well, is at any time in a state that it reaches in the world of the start, as long as the files
answer it as they did at the start (`TaskStep.right`).
-/

namespace ExamGeneratorNg

open Promise FileTree

variable {env env' : Environment} {s s' : TaskState} {past : List (Event Callback Supplier)}

/-! ### Tasks in environments that answer alike -/

theorem Alike.runSupplier (h : Alike env env') {supplier : Supplier}
    (hsaves : Workspace.savesExams supplier.promise = false) :
    runSupplier env supplier = runSupplier env' supplier := by
  cases supplier with
  | loadProgramTemplates => exact congrArg Effectful.ofExcept h.load
  | compileProgramTemplate programId programTemplate group =>
    exact h.compileProgramTemplate programId programTemplate group
  | runProgram programId compilerOutput group => rfl
  | generateExamVariants group programPipelineMap processOutputs => cases hsaves

/-- What happens next depends on what the task that ends does only. -/
theorem next_congr {action : Action PromiseRef} (h : ∀ supplier ∈ s.tasks,
      action = .task supplier.promise → runSupplier env supplier = runSupplier env' supplier) :
    (projectTask env).next s action = (projectTask env').next s action := by
  cases action with
  | callback ref => rfl
  | task ref =>
    refine System.next_task_congr rfl fun supplier hmem hpromise => ?_
    show finish env supplier = finish env' supplier
    unfold finish
    rw [h supplier hmem (congrArg Action.task hpromise.symm)]

/-- No two tasks that are running have the same promise. -/
theorem eq_of_promise_eq (h : (projectTask env).History newProjectTask past s)
    {supplier supplier' : Supplier} (hmem : supplier ∈ s.tasks) (hmem' : supplier' ∈ s.tasks)
    (hpromise : supplier.promise = supplier'.promise) : supplier = supplier' := by
  have hpending := (Multiset.nodup_add.mp (nodup_of_history h).1).2.1
  have htasks := (Multiset.nodup_add.mp hpending).2.1
  exact List.inj_on_of_nodup_map htasks hmem hmem' (congrArg EventName.task hpromise)

/-- A task that is running goes on while something else happens. -/
theorem mem_tasks_of_next {action : Action PromiseRef}
    (hnext : (projectTask env).next s action = some s') {supplier : Supplier}
    (hmem : supplier ∈ s.tasks) (hne : action ≠ .task supplier.promise) : supplier ∈ s'.tasks := by
  rcases System.next_cases hnext with ⟨callback, before, after, -, -, -, -, rfl⟩
    | ⟨supplier', before, after, rfl, htasks, rfl⟩
  · exact tasks_subset_call callback _ hmem
  · show supplier ∈ (finish env supplier' _).tasks
    unfold finish
    rw [State.settle_tasks]
    show supplier ∈ before ++ after
    rw [htasks, List.mem_append, List.mem_cons] at hmem
    rw [List.mem_append]
    rcases hmem with hbefore | rfl | hafter
    · exact .inl hbefore
    · exact absurd rfl hne
    · exact .inr hafter

/-- A task that is running can end, and has its effects then. -/
theorem exists_next_of_mem_tasks (h : (projectTask env).History newProjectTask past s)
    {supplier : Supplier} (hmem : supplier ∈ s.tasks) :
    ∃ s', (projectTask env).next s (.task supplier.promise) = some s'
      ∧ s'.world.effects = s.world.effects ++ (runSupplier env supplier).effects := by
  rw [System.next_task]
  cases hfind : s.tasks.find? fun t => (projectTask env).promise t = supplier.promise with
  | none => exact absurd (decide_eq_true rfl) (List.find?_eq_none.mp hfind supplier hmem)
  | some supplier' =>
    have hpromise : supplier'.promise = supplier.promise :=
      of_decide_eq_true (List.find?_some hfind :)
    obtain rfl := eq_of_promise_eq h (List.mem_of_find?_eq_some hfind) hmem hpromise
    refine ⟨_, rfl, ?_⟩
    show (finish env supplier' _).world.effects = _
    unfold finish
    rw [State.settle_world]
    rfl

/-- Only a task that makes exams saves some. -/
theorem exists_effects_of_next (h : (projectTask env).History newProjectTask past s)
    {action : Action PromiseRef} (hnext : (projectTask env).next s action = some s')
    (hsaves : ∀ ref, action = .task ref → Workspace.savesExams ref = false) :
    ∃ effects, s'.world.effects = s.world.effects ++ effects ∧ savedDocuments effects = [] := by
  rcases System.next_cases hnext with ⟨callback, before, after, -, -, -, -, rfl⟩
    | ⟨supplier, before, after, rfl, htasks, rfl⟩
  · exact ⟨[], (spawned_call (inv_of_history h)).view.trans (List.append_nil _).symm, rfl⟩
  · refine ⟨(runSupplier env supplier).effects, ?_, ?_⟩
    · show (finish env supplier _).world.effects = _
      unfold finish
      rw [State.settle_world]
      rfl
    · rcases savedDocuments_runSupplier env supplier with hnil | ⟨group, hpromise, -⟩
      · exact hnil
      · have hnot := hsaves _ rfl
        rw [show (projectTask env).promise supplier = supplier.promise from rfl, hpromise] at hnot
        cases hnot

/-- The exams of a group have not been saved while the task that makes them is running. -/
theorem notMem_savedDocuments (h : (projectTask env).History newProjectTask past s)
    {supplier : Supplier} (hmem : supplier ∈ s.tasks) {group : Group}
    (hpromise : supplier.promise = .documents group) {fileName : JString}
    (hname : fileName ∈ groupDocuments group) : fileName ∉ savedDocuments s.world.effects := by
  intro hsaved
  obtain ⟨supplier', hended, group', hgroup', hpromise', hname'⟩ :=
    (account_of_history h).exists_ended hsaved
  have hgroup : IsGroup group := by
    have hdue := (inv_of_history h).due supplier hmem
    cases supplier <;> cases hpromise
    exact hdue.1
  obtain rfl := group_of_mem_groupDocuments hgroup hgroup' hname hname'
  have hpending : eventName (.ended supplier) ∈ s.pending eventName :=
    State.mem_pending_of_task hmem
  have hpast : eventName (.ended supplier') ∈ past.map eventName :=
    List.mem_map_of_mem (mem_endedTasks.mp hended)
  have hsame : eventName (.ended supplier') = eventName (.ended supplier) :=
    congrArg EventName.task (hpromise'.trans hpromise.symm)
  have hdisjoint := (Multiset.nodup_add.mp (nodup_of_history h).1).2.2
  exact Multiset.disjoint_left.mp hdisjoint (hsame ▸ hpast) hpending

/-! ### The steps of a task -/

namespace Workspace

variable {Byte : Type} {machine : Machine (List Byte)} {path : FilePath}

variable (machine path) in
/-- What may happen in a task, by what it does. -/
inductive TaskStep [Inhabited Byte] : TaskOnFiles Byte → TaskOnFiles Byte → Prop
  | task (s : TaskOnFiles Byte) (action : Action PromiseRef) (task : TaskState)
    (hsaves : ∀ ref, action = .task ref → savesExams ref = false)
    (hnext : (projectTask (environmentOf machine path s.files)).next s.task action = some task) :
    TaskStep s { s with task := task }
  | generate (s : TaskOnFiles Byte) (supplier : Supplier) (generation : Generation Byte)
    (hmem : supplier ∈ s.task.tasks) (hnew : newGeneration supplier = some generation)
    (hpromise : supplier.promise = .documents generation.group)
    (hfresh : generation.group ∉ s.generations) :
    TaskStep s { s with generations := s.generations.insert generation.group generation }
  | statement (s : TaskOnFiles Byte) (group : Group) (generation generation' : Generation Byte)
    (files : Files (List Byte)) (hlookup : s.generations.lookup group = some generation)
    (hstep : GenerationStep machine path s.files generation generation' files) :
    TaskStep s ⟨s.task, s.generations.insert group generation', files⟩
  | generated (s : TaskOnFiles Byte) (group : Group) (generation : Generation Byte)
    (result : Except JavaException Unit) (task : TaskState)
    (hlookup : s.generations.lookup group = some generation)
    (hresult : generation.result = some result)
    (hnext : System.next
      { projectTask (environmentOf machine path s.files) with
        finish := fun _ (task : TaskState) =>
          (task.addEffects generation.effects).settle (.documents group) result }
      s.task (.task (.documents group)) = some task) :
    TaskStep s { s with task := task, generations := s.generations.erase group }

theorem taskStep_of_next [Inhabited Byte] {s s' : TaskOnFiles Byte} {action : TaskAction}
    (h : (projectTaskOnFiles machine path).next action s = some s') :
    TaskStep machine path s s' := by
  cases action with
  | callback ref =>
    obtain ⟨task, hnext, rfl⟩ := Option.map_eq_some_iff.mp h
    exact .task s (.callback ref) task nofun hnext
  | task ref =>
    change (if savesExams ref then none else _) = some s' at h
    split_ifs at h with hsaves
    obtain ⟨task, hnext, rfl⟩ := Option.map_eq_some_iff.mp h
    refine .task s (.task ref) task (fun ref' heq => ?_) hnext
    cases heq
    exact Bool.eq_false_of_not_eq_true hsaves
  | generate group =>
    obtain ⟨supplier, hfind, hrest⟩ := Option.bind_eq_some_iff.mp h
    obtain ⟨generation, hnew, hif⟩ := Option.bind_eq_some_iff.mp hrest
    have hpromise : supplier.promise = .documents group :=
      of_decide_eq_true (List.find?_some hfind :)
    obtain rfl : group = generation.group := by
      have heq := hpromise.symm.trans (promise_of_newGeneration hnew)
      cases heq
      rfl
    split_ifs at hif with hmem
    cases hif
    exact .generate s supplier generation (List.mem_of_find?_eq_some hfind) hnew hpromise hmem
  | statement group =>
    obtain ⟨generation, hlookup, hrest⟩ := Option.bind_eq_some_iff.mp h
    obtain ⟨⟨generation', files⟩, hnext, heq⟩ := Option.bind_eq_some_iff.mp hrest
    cases heq
    exact .statement s group generation generation' files hlookup (generationStep_of_next hnext)
  | generated group =>
    obtain ⟨generation, hlookup, hrest⟩ := Option.bind_eq_some_iff.mp h
    obtain ⟨result, hresult, hrest⟩ := Option.bind_eq_some_iff.mp hrest
    obtain ⟨task, hnext, heq⟩ := Option.bind_eq_some_iff.mp hrest
    cases heq
    exact .generated s group generation result task hlookup hresult hnext

/-! ### What is known of a task -/

variable (machine path) in
/-- A task has run as in the world of the files `start`, and so have its calls. -/
structure TaskRight (start : Files (List Byte)) (task : TaskState)
    (generations : JMap Group (Generation Byte)) : Prop where
  reachable : (projectTask (environmentOf machine path start)).Reachable newProjectTask task
  generations : ∀ group generation, generations.lookup group = some generation →
    generation.group = group
    ∧ generation.PointRight machine (start.get (path ++ [templateName]))
    ∧ ∃ supplier ∈ task.tasks, generation.Does (environmentOf machine path start) supplier

variable {start : Files (List Byte)} {task : TaskState}
  {generations : JMap Group (Generation Byte)}

variable (machine path) in
/-- The files answer a task as they did at the start. -/
structure AnswersAlike (start files : Files (List Byte))
    (generations : JMap Group (Generation Byte)) : Prop where
  alike : Alike (environmentOf machine path start) (environmentOf machine path files)
  template : files.get (path ++ [templateName]) = start.get (path ++ [templateName])
  save : ∀ group generation, generations.lookup group = some generation →
    ∀ variant template contentDom, generation.point = .filled variant template contentDom →
      canSave machine path (documentName generation.group variant) files
        = canSave machine path (documentName generation.group variant) start

/-- What happens in a task, but for the exams, happens as at the start. -/
theorem AnswersAlike.next_eq {files : Files (List Byte)}
    (h : AnswersAlike machine path start files generations) {action : Action PromiseRef}
    (hsaves : ∀ ref, action = .task ref → savesExams ref = false) :
    (projectTask (environmentOf machine path start)).next task action
      = (projectTask (environmentOf machine path files)).next task action :=
  next_congr fun _ _ haction => h.alike.runSupplier (hsaves _ haction)

theorem TaskStep.right [Inhabited Byte] {s s' : TaskOnFiles Byte} (h : TaskStep machine path s s')
    (hright : TaskRight machine path start s.task s.generations)
    (halike : AnswersAlike machine path start s.files s.generations) :
    TaskRight machine path start s'.task s'.generations := by
  cases h with
  | task action task hsaves hnext =>
    rw [← halike.next_eq hsaves] at hnext
    refine ⟨hright.reachable.next hnext, fun group generation hlookup => ?_⟩
    obtain ⟨hgroup, hpoint, supplier, hmem, hdoes⟩ := hright.generations group generation hlookup
    refine ⟨hgroup, hpoint, supplier, mem_tasks_of_next hnext hmem fun heq => ?_, hdoes⟩
    have hnot := hsaves _ heq
    rw [hdoes.promise] at hnot
    cases hnot
  | generate supplier generation hmem hnew hpromise hfresh =>
    refine ⟨hright.reachable, fun group generation' hlookup => ?_⟩
    by_cases hgroup : group = generation.group
    · subst hgroup
      rw [AList.lookup_insert] at hlookup
      cases hlookup
      obtain ⟨hdoes, hpoint⟩ := does_of_newGeneration hnew
      exact ⟨rfl, hpoint, supplier, hmem, hdoes⟩
    · rw [AList.lookup_insert_ne hgroup] at hlookup
      exact hright.generations group generation' hlookup
  | statement group generation generation' files hlookup hstep =>
    refine ⟨hright.reachable, fun group' generation'' hlookup' => ?_⟩
    by_cases hgroup : group' = group
    · subst hgroup
      rw [AList.lookup_insert] at hlookup'
      cases hlookup'
      obtain ⟨hgroup, hpoint, supplier, hmem, hdoes⟩ := hright.generations _ generation hlookup
      have hwhole := hstep.whole_eq halike.alike (halike.save _ generation hlookup)
      refine ⟨hstep.group_eq.trans hgroup, hstep.pointRight halike.template hpoint, supplier, hmem,
        hdoes.congr hstep.group_eq hwhole⟩
    · rw [AList.lookup_insert_ne hgroup] at hlookup'
      exact hright.generations group' generation'' hlookup'
  | generated group generation result task hlookup hresult hnext =>
    obtain ⟨hgroup, hpoint, supplier, hmem, hdoes⟩ := hright.generations group generation hlookup
    subst hgroup
    obtain ⟨past, hpast⟩ := hright.reachable.history
    -- it is the task of the call that ends
    have hsame : (projectTask (environmentOf machine path start)).next s.task
        (.task (.documents generation.group)) = some task := by
      rw [← hnext]
      refine System.next_task_congr rfl fun supplier' hmem' hpromise => ?_
      obtain rfl := eq_of_promise_eq hpast hmem hmem' (hdoes.promise.trans hpromise.symm)
      exact funext fun task => (hdoes.finish_eq hresult task).symm
    refine ⟨hright.reachable.next hsame, fun group' generation' hlookup' => ?_⟩
    have hne : group' ≠ generation.group := by
      rintro rfl
      rw [AList.lookup_erase] at hlookup'
      cases hlookup'
    rw [AList.lookup_erase_ne hne] at hlookup'
    obtain ⟨hgroup, hpoint', supplier', hmem', hdoes'⟩ :=
      hright.generations group' generation' hlookup'
    refine ⟨hgroup, hpoint', supplier', mem_tasks_of_next hsame hmem' fun heq => ?_, hdoes'⟩
    rw [hdoes'.promise, hgroup] at heq
    cases heq
    exact hne rfl

/-! ### Where the command line ends well -/

/-- The effects that save documents, as the files that they save. -/
theorem examFiles_visibleEffects {Content : Type} {machine : Machine Content}
    (template : Files Content) (effects : List Effect) :
    examFiles machine template (visibleEffects effects) = examFiles machine template effects := by
  unfold examFiles visibleEffects
  rw [List.filterMap_filter]
  refine List.filterMap_congr fun effect _ => ?_
  cases effect <;> rfl

theorem examFiles_subset {Content : Type} {machine : Machine Content} {template : Files Content}
    {effects effects' : List Effect} (h : visibleEffects effects ⊆ visibleEffects effects') :
    examFiles machine template effects ⊆ examFiles machine template effects' := by
  rw [← examFiles_visibleEffects, ← examFiles_visibleEffects _ effects']
  exact List.filterMap_subset _ h

section

variable (henv : (ExamGeneratorNg.generateAllExamVariants (environmentOf machine path start)).result
  = .ok ())

include henv

/-- What a call saves is an exam of the command line. -/
theorem TaskRight.mem_commandLineExams [Inhabited Byte]
    (h : TaskRight machine path start task generations) {group : Group}
    {generation : Generation Byte}
    (hlookup : generations.lookup group = some generation) {variant : ExamVariant}
    {contentDom : Node} {bytes : List Byte} {position : ℕ}
    (hpoint : generation.point = .saving variant contentDom bytes position) :
    (documentName generation.group variant, .file bytes) ∈ commandLineExams machine path start := by
  obtain ⟨-, hright, supplier, hmem, hdoes⟩ := h.generations group generation hlookup
  obtain ⟨past, hpast⟩ := h.reachable.history
  obtain ⟨task', hnext, heffects⟩ := exists_next_of_mem_tasks hpast hmem
  have hdocument : .document (documentName generation.group variant) contentDom
      ∈ (generation.whole (environmentOf machine path start)).effects := by
    unfold Generation.whole Generation.rest
    rw [hpoint]
    exact List.mem_append_right _ List.mem_cons_self
  rw [hdoes.effects_eq] at hdocument
  obtain ⟨event, hpast'⟩ := hpast.next hnext
  refine examFiles_subset ((account_of_history hpast').visibleEffects_subset henv) ?_
  unfold Generation.PointRight at hright
  rw [hpoint] at hright
  rw [heffects]
  exact List.mem_filterMap.mpr ⟨_, List.mem_append_right _ hdocument, by rw [hright.2]⟩

end

/-! ### What a step does to the exams -/

theorem TaskRight.isGroup (h : TaskRight machine path start task generations) {group : Group}
    {generation : Generation Byte} (hlookup : generations.lookup group = some generation) :
    IsGroup generation.group := by
  obtain ⟨-, -, supplier, hmem, programPipelineMap, processOutputs, rfl, -⟩ :=
    h.generations group generation hlookup
  obtain ⟨past, hpast⟩ := h.reachable.history
  exact ((inv_of_history hpast).due _ hmem).1

theorem TaskRight.documentName_mem (h : TaskRight machine path start task generations)
    {group : Group} {generation : Generation Byte}
    (hlookup : generations.lookup group = some generation) (variant : ExamVariant) :
    documentName generation.group variant ∈ examDocuments :=
  groupDocuments_subset (h.isGroup hlookup) (documentName_mem_groupDocuments _ _)

/-- The calls of a task. -/
def callsOf (generations : JMap Group (Generation Byte)) : Set (Generation Byte) :=
  {generation | ∃ group, generations.lookup group = some generation}

theorem stream_of_newGeneration {supplier : Supplier} {generation : Generation Byte}
    (h : newGeneration supplier = some generation) :
    generation.stream = none
    ∧ savedDocuments generation.effects = [] := by
  cases supplier with
  | generateExamVariants group programPipelineMap processOutputs =>
    unfold newGeneration at h
    dsimp only at h
    split at h
    · cases h
      exact ⟨rfl, rfl⟩
    · cases h
      exact ⟨rfl, rfl⟩
  | _ => cases h

theorem stream_of_result {generation : Generation Byte} {result : Except JavaException Unit}
    (h : generation.result = some result) : generation.stream = none := by
  obtain ⟨group, m, point, effects⟩ := generation
  cases point with
  | ended result => rfl
  | _ => cases h

/-- A step of a task keeps the exams, while other calls are at work as well. -/
theorem ExamsKept.step [Inhabited Byte] {others : Set (Generation Byte)} {opened : Set JString}
    {s s' : TaskOnFiles Byte} (hstep : TaskStep machine path s s')
    (henv : (ExamGeneratorNg.generateAllExamVariants (environmentOf machine path start)).result
      = .ok ())
    (hright : TaskRight machine path start s.task s.generations)
    (halike : AnswersAlike machine path start s.files s.generations)
    (h : ExamsKept path start (commandLineExams machine path start)
      (others ∪ callsOf s.generations) opened s.files)
    (hsaved : ∀ name ∈ savedDocuments s.task.world.effects, name ∈ opened) :
    ∃ opened', opened ⊆ opened'
      ∧ ExamsKept path start (commandLineExams machine path start)
        (others ∪ callsOf s'.generations) opened' s'.files
      ∧ ∀ name ∈ savedDocuments s'.task.world.effects, name ∈ opened' := by
  have hright' := hstep.right hright halike
  obtain ⟨past, hpast⟩ := hright.reachable.history
  cases hstep with
  | task action task hsaves hnext =>
    rw [← halike.next_eq hsaves] at hnext
    obtain ⟨effects, heffects, hnone⟩ := exists_effects_of_next hpast hnext hsaves
    refine ⟨opened, subset_rfl, h, ?_⟩
    dsimp only
    rwa [heffects, savedDocuments_append, hnone, List.append_nil]
  | generate supplier generation hmem hnew hpromise hfresh =>
    obtain ⟨hnone, hnothing⟩ := stream_of_newGeneration hnew
    refine ⟨opened, subset_rfl, h.quiet (fun call hcall => .inr ?_) (fun call hcall => ?_), hsaved⟩
    · rcases hcall with hcall | ⟨group, hlookup⟩
      · exact .inl hcall
      · refine .inr ⟨group, ?_⟩
        rw [AList.lookup_insert_ne, hlookup]
        rintro rfl
        exact hfresh (AList.lookup_isSome.mp (Option.isSome_of_eq_some hlookup))
    · rcases hcall with hcall | ⟨group, hlookup⟩
      · exact .inl (.inl hcall)
      · by_cases hgroup : group = generation.group
        · subst hgroup
          rw [AList.lookup_insert] at hlookup
          cases hlookup
          refine .inr ⟨hnone, fun name hname => ?_⟩
          rw [hnothing] at hname
          cases hname
        · rw [AList.lookup_insert_ne hgroup] at hlookup
          exact .inl (.inr ⟨group, hlookup⟩)
  | statement group generation generation' files hlookup hstep =>
    have hlookup' : (s.generations.insert group generation').lookup group = some generation' :=
      AList.lookup_insert _
    have hkept : ∃ opened', opened ⊆ opened' ∧ ExamsKept path start
        (commandLineExams machine path start)
        (others ∪ callsOf (s.generations.insert group generation')) opened' files := by
      refine h.statement (nodup_commandLineExams henv) hstep (.inr ⟨group, hlookup⟩)
        (.inr ⟨group, hlookup'⟩) ?_ ?_ ?_
      · rintro call (hcall | ⟨group', hcall⟩)
        · exact .inr (.inl hcall)
        · by_cases hgroup : group' = group
          · subst hgroup
            exact .inl (Option.some.inj (hcall.symm.trans hlookup))
          · exact .inr (.inr ⟨group', (AList.lookup_insert_ne hgroup).trans hcall⟩)
      · rintro call (hcall | ⟨group', hcall⟩)
        · exact .inr (.inl hcall)
        · by_cases hgroup : group' = group
          · subst hgroup
            exact .inl (Option.some.inj (hcall.symm.trans hlookup'))
          · exact .inr (.inr ⟨group', (AList.lookup_insert_ne hgroup).symm.trans hcall⟩)
      · rintro call (rfl | rfl) variant contentDom bytes position hpoint
        · exact hright.mem_commandLineExams henv hlookup hpoint
        · exact hright'.mem_commandLineExams henv hlookup' hpoint
    obtain ⟨opened', hsubset, hkept⟩ := hkept
    exact ⟨opened', hsubset, hkept, fun name hname => hsubset (hsaved name hname)⟩
  | generated group generation result task hlookup hresult hnext =>
    refine ⟨opened, subset_rfl, h.quiet (fun call hcall => ?_) (fun call hcall => .inl ?_), ?_⟩
    · rcases hcall with hcall | ⟨group', hcall⟩
      · exact .inr (.inl hcall)
      · by_cases hgroup : group' = group
        · subst hgroup
          obtain rfl := Option.some.inj (hcall.symm.trans hlookup)
          exact .inl (stream_of_result hresult)
        · exact .inr (.inr ⟨group', (AList.lookup_erase_ne hgroup).trans hcall⟩)
    · rcases hcall with hcall | ⟨group', hcall⟩
      · exact .inl hcall
      · by_cases hgroup : group' = group
        · subst hgroup
          rw [AList.lookup_erase] at hcall
          cases hcall
        · exact .inr ⟨group', (AList.lookup_erase_ne hgroup).symm.trans hcall⟩
    · rw [System.next_task] at hnext
      obtain ⟨supplier, -, rfl⟩ := Option.map_eq_some_iff.mp hnext
      dsimp only
      rw [State.settle_world]
      show ∀ name ∈ savedDocuments (s.task.world.effects ++ generation.effects), name ∈ opened
      rw [savedDocuments_append]
      exact List.forall_mem_append.mpr ⟨hsaved, h.saved generation (.inr ⟨group, hlookup⟩)⟩

/-- A step writes exams of the workspace only. -/
theorem TaskStep.files_eq [Inhabited Byte] {s s' : TaskOnFiles Byte}
    (h : TaskStep machine path s s') (hright : TaskRight machine path start s.task s.generations) :
    s'.files = s.files
    ∨ ∃ name ∈ examDocuments, ∃ content,
      s'.files = s.files.put (path ++ [name]) (.file content) := by
  cases h with
  | task action task hsaves hnext => exact .inl rfl
  | generate supplier generation hmem hnew hpromise hfresh => exact .inl rfl
  | statement group generation generation' files hlookup hstep =>
    have hname := hright.documentName_mem hlookup
    cases hstep with
    | openFile group m effects variant template contentDom hok =>
      exact .inr ⟨_, hname variant, _, rfl⟩
    | writeByte group m effects variant contentDom bytes position byte hbyte =>
      exact .inr ⟨_, hname variant, _, rfl⟩
    | _ => exact .inl rfl
  | generated group generation result task hlookup hresult hnext => exact .inl rfl

/-! ### Tasks in which nothing can happen -/

section

variable {s : TaskOnFiles Byte} {group : Group} {generation : Generation Byte}

theorem exists_next_statement [Inhabited Byte]
    (hlookup : s.generations.lookup group = some generation) (hresult : generation.result = none) :
    ∃ s', (projectTaskOnFiles machine path).next (.statement group) s = some s' := by
  obtain ⟨generation', files', hnext⟩ := exists_next_of_result_eq_none hresult machine path s.files
  exact ⟨_, Option.bind_eq_some_iff.mpr ⟨generation, hlookup,
    Option.bind_eq_some_iff.mpr ⟨_, hnext, rfl⟩⟩⟩

theorem exists_next_generated [Inhabited Byte]
    (hlookup : s.generations.lookup group = some generation)
    {result : Except JavaException Unit} (hresult : generation.result = some result)
    {supplier : Supplier} (hmem : supplier ∈ s.task.tasks)
    (hpromise : supplier.promise = .documents group) :
    ∃ s', (projectTaskOnFiles machine path).next (.generated group) s = some s' := by
  have hnext : ∃ task, System.next
      { projectTask (environmentOf machine path s.files) with
        finish := fun _ (task : TaskState) =>
          (task.addEffects generation.effects).settle (.documents group) result }
      s.task (.task (.documents group)) = some task := by
    rw [System.next_task]
    cases hfind : s.task.tasks.find? fun supplier => supplier.promise = .documents group with
    | none => exact absurd (decide_eq_true hpromise) (List.find?_eq_none.mp hfind supplier hmem)
    | some supplier' => exact ⟨_, congrArg _ hfind⟩
  obtain ⟨task, hnext⟩ := hnext
  exact ⟨_, Option.bind_eq_some_iff.mpr ⟨generation, hlookup,
    Option.bind_eq_some_iff.mpr ⟨result, hresult, Option.bind_eq_some_iff.mpr ⟨task, hnext, rfl⟩⟩⟩⟩

theorem exists_next_generate [Inhabited Byte] (hfresh : group ∉ s.generations) {supplier : Supplier}
    (hmem : supplier ∈ s.task.tasks) (hpromise : supplier.promise = .documents group) :
    ∃ s', (projectTaskOnFiles machine path).next (.generate group) s = some s' := by
  have hfind : ∃ supplier', (s.task.tasks.find? fun supplier => supplier.promise = .documents group)
      = some supplier' := by
    cases hfind : s.task.tasks.find? fun supplier => supplier.promise = .documents group with
    | none => exact absurd (decide_eq_true hpromise) (List.find?_eq_none.mp hfind supplier hmem)
    | some supplier' => exact ⟨supplier', rfl⟩
  obtain ⟨supplier', hfind⟩ := hfind
  have hpromise' : supplier'.promise = .documents group :=
    of_decide_eq_true (List.find?_some hfind :)
  have hnew : ∃ generation : Generation Byte, newGeneration supplier' = some generation := by
    cases supplier' with
    | generateExamVariants group programPipelineMap processOutputs =>
      unfold newGeneration
      dsimp only
      split <;> exact ⟨_, rfl⟩
    | _ => cases hpromise'
  obtain ⟨generation, hnew⟩ := hnew
  exact ⟨_, Option.bind_eq_some_iff.mpr ⟨supplier', hfind,
    Option.bind_eq_some_iff.mpr ⟨generation, hnew, if_neg hfresh⟩⟩⟩

end

/-- A task in which nothing can happen has come to its end, and so have its calls. -/
theorem TaskRight.quiescent [Inhabited Byte] (h : TaskRight machine path start task generations)
    {files : Files (List Byte)} (hstuck : ∀ action,
      (projectTaskOnFiles machine path).next action ⟨task, generations, files⟩ = none)
    (halike : AnswersAlike machine path start files generations) :
    (projectTask (environmentOf machine path start)).Quiescent task
    ∧ ∀ group, generations.lookup group = none := by
  have hcannot : ∀ action s',
      (projectTaskOnFiles machine path).next action ⟨task, generations, files⟩ ≠ some s' := by
    intro action s' hnext
    rw [hstuck action] at hnext
    cases hnext
  have hnone : ∀ group, generations.lookup group = none := by
    intro group
    by_contra hsome
    obtain ⟨generation, hlookup⟩ := Option.ne_none_iff_exists'.mp hsome
    obtain ⟨hgroup, -, supplier, hmem, hdoes⟩ := h.generations group generation hlookup
    cases hresult : generation.result with
    | none =>
      obtain ⟨s', hnext⟩ := exists_next_statement (s := ⟨task, generations, files⟩) hlookup hresult
      exact hcannot _ _ hnext
    | some result =>
      obtain ⟨s', hnext⟩ := exists_next_generated (s := ⟨task, generations, files⟩) hlookup hresult
        hmem (hgroup ▸ hdoes.promise)
      exact hcannot _ _ hnext
  refine ⟨System.quiescent_iff.mpr fun action => ?_, hnone⟩
  by_contra hsome
  obtain ⟨task', hnext⟩ := Option.ne_none_iff_exists'.mp hsome
  have hsteps : (∀ ref, action = .task ref → savesExams ref = false) → False := by
    intro hsaves
    rw [halike.next_eq hsaves] at hnext
    cases action with
    | callback ref =>
      exact hcannot (.callback ref) _ (Option.map_eq_some_iff.mpr ⟨_, hnext, rfl⟩)
    | task ref =>
      refine hcannot (.task ref) _ ((if_neg ?_).trans
        (Option.map_eq_some_iff.mpr ⟨_, hnext, rfl⟩))
      rw [hsaves ref rfl]
      exact Bool.false_ne_true
  rcases System.next_cases hnext with ⟨callback, -, -, rfl, -⟩
    | ⟨supplier, before, after, rfl, htasks, -⟩
  · exact hsteps nofun
  · have hmem : supplier ∈ task.tasks := by
      rw [htasks]
      exact List.mem_append_right _ List.mem_cons_self
    cases supplier with
    | generateExamVariants group programPipelineMap processOutputs =>
      have hfresh : group ∉ generations := by
        rw [← AList.lookup_eq_none]
        exact hnone group
      obtain ⟨s', hnext⟩ :=
        exists_next_generate (s := ⟨task, generations, files⟩) hfresh hmem rfl
      exact hcannot _ _ hnext
    | _ =>
      refine hsteps fun ref heq => ?_
      cases heq
      rfl

end Workspace

end ExamGeneratorNg
