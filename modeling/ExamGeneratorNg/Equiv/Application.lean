import ExamGeneratorNg.Equiv.SingleTask
import ExamGeneratorNg.Ui.Application

/-!
# The tasks of an application

The user can have several tasks at work at a time: on one workspace, as a task that has `SUCCEEDED`
may have started another, and as a project can be opened again, and on several workspaces.  Where
the command line ends well this does no harm, although tasks may write the same files at the same
time: all tasks of a workspace save the same exams, and those of other workspaces save none there
(`application_always`, `application_exams`).

The invariant is that every task has run as it would have run alone in the world of the start, and
that the exams of its workspace that have been opened are written by streams of the same bytes
(`Kept`).
-/

namespace ExamGeneratorNg.Workspace

open Promise FileTree FileStream

variable {Byte : Type} {machine : Machine (List Byte)} {path path' : FilePath}
  {start : Files (List Byte)} {application application' : Application Byte} {opened : Set JString}

/-! ### The calls at work in a workspace -/

/-- The calls of `generateExamVariantsForGroup` at work in a workspace. -/
def Application.calls (application : Application Byte) (path : FilePath) :
    Set (Generation Byte) :=
  {generation | ∃ started ∈ application.tasks, started.workspacePath = path
    ∧ generation ∈ callsOf started.generations}

/-- The calls at work in a workspace, but for those of one task. -/
def Application.otherCalls (application : Application Byte) (path : FilePath) (index : ℕ) :
    Set (Generation Byte) :=
  {generation | ∃ i started, i ≠ index ∧ application.tasks[i]? = some started
    ∧ started.workspacePath = path ∧ generation ∈ callsOf started.generations}

theorem calls_eq {index : ℕ} {started : StartedTask Byte}
    (hindex : application.tasks[index]? = some started) (hpath : started.workspacePath = path) :
    application.calls path = application.otherCalls path index ∪ callsOf started.generations := by
  ext generation
  constructor
  · rintro ⟨started', hmem, hpath', hcall⟩
    obtain ⟨i, hi⟩ := List.getElem?_of_mem hmem
    by_cases hne : i = index
    · subst hne
      obtain rfl := Option.some.inj (hi.symm.trans hindex)
      exact .inr hcall
    · exact .inl ⟨i, started', hne, hi, hpath', hcall⟩
  · rintro (⟨i, started', -, hi, hpath', hcall⟩ | hcall)
    · exact ⟨started', List.mem_of_getElem? hi, hpath', hcall⟩
    · exact ⟨started, List.mem_of_getElem? hindex, hpath, hcall⟩

theorem otherCalls_set {index : ℕ} {started : StartedTask Byte}
    (htasks : application'.tasks = application.tasks.set index started) :
    application'.otherCalls path index = application.otherCalls path index := by
  ext generation
  constructor
  · rintro ⟨i, started', hne, hi, hrest⟩
    rw [htasks, List.getElem?_set_ne (Ne.symm hne)] at hi
    exact ⟨i, started', hne, hi, hrest⟩
  · rintro ⟨i, started', hne, hi, hrest⟩
    refine ⟨i, started', hne, ?_, hrest⟩
    rw [htasks, List.getElem?_set_ne (Ne.symm hne), hi]

/-! ### One workspace -/

variable (machine path start) in
/-- What is known of a workspace at any time. -/
structure Kept (application : Application Byte) (opened : Set JString) : Prop where
  tasks : ∀ started ∈ application.tasks, started.workspacePath = path →
    TaskRight machine path start started.task started.generations
    ∧ ∀ name ∈ savedDocuments started.task.world.effects, name ∈ opened
  exams : ExamsKept path start (commandLineExams machine path start) (application.calls path)
    opened application.files

section

variable (henv : (ExamGeneratorNg.generateAllExamVariants (environmentOf machine path start)).result
  = .ok ())

include henv

/-- Only exams are opened. -/
theorem Kept.mem_examDocuments (h : Kept machine path start application opened) {name : JString}
    (hname : name ∈ opened) : name ∈ examDocuments := by
  obtain ⟨bytes, -, hexam, -⟩ := h.exams.exam name hname
  rw [← map_fst_commandLineExams henv]
  exact List.mem_map_of_mem hexam

/-- What a task asks of the files is answered as at the start. -/
theorem Kept.answersAlike [Inhabited Byte] (h : Kept machine path start application opened)
    (hsave : ∀ content, machine.saves (.file content) = .ok ()) {started : StartedTask Byte}
    (hmem : started ∈ application.tasks) (hpath : started.workspacePath = path) :
    AnswersAlike machine path start application.files started.generations where
  alike := alike_environmentOf fun name hname =>
    h.exams.others name (fun hopened =>
      hname (List.mem_cons_of_mem _ (h.mem_examDocuments henv hopened))) []
  template := h.exams.others templateName
    (fun hopened => templateName_notMem (h.mem_examDocuments henv hopened)) []
  save group generation hlookup variant template contentDom hpoint := by
    have hname := (h.tasks started hmem hpath).1.documentName_mem hlookup variant
    by_cases hopened : documentName generation.group variant ∈ opened
    · obtain ⟨bytes, content, -, hget, -⟩ := h.exams.exam _ hopened
      rw [canSave_of_file hsave hget]
      exact (save_of_ok henv hname).symm
    · refine canSave_congr ⟨fun _ => hasParent_of_ok henv _, fun _ => h.exams.hasParent _⟩ ?_
      exact h.exams.others _ hopened []

/-- The workspace of a task that takes a step. -/
theorem Kept.step [Inhabited Byte] (h : Kept machine path start application opened)
    (hsave : ∀ content, machine.saves (.file content) = .ok ()) {index : ℕ}
    {started : StartedTask Byte} (hindex : application.tasks[index]? = some started)
    (hpath : started.workspacePath = path) {s : TaskOnFiles Byte}
    (hstep : TaskStep machine path ⟨started.task, started.generations, application.files⟩ s)
    (htasks : application'.tasks = application.tasks.set index ⟨path, s.task, s.generations⟩)
    (hfiles : application'.files = s.files) :
    ∃ opened', Kept machine path start application' opened' := by
  have hmem := List.mem_of_getElem? hindex
  obtain ⟨hright, hsaved⟩ := h.tasks started hmem hpath
  have halike := h.answersAlike henv hsave hmem hpath
  have hexams := h.exams
  rw [calls_eq hindex hpath] at hexams
  obtain ⟨opened', hsubset, hkept, hsaved'⟩ := hexams.step hstep henv hright halike hsaved
  have hindex' : application'.tasks[index]? = some ⟨path, s.task, s.generations⟩ := by
    rw [htasks, List.getElem?_set_self (List.getElem?_eq_some_iff.mp hindex).1]
  refine ⟨opened', fun started' hmem' hpath' => ?_, ?_⟩
  · rw [htasks] at hmem'
    rcases List.mem_or_eq_of_mem_set hmem' with hmem' | rfl
    · obtain ⟨hright', hsaved'⟩ := h.tasks started' hmem' hpath'
      exact ⟨hright', fun name hname => hsubset (hsaved' name hname)⟩
    · exact ⟨hstep.right hright halike, hsaved'⟩
  · rw [calls_eq hindex' rfl, otherCalls_set htasks, hfiles]
    exact hkept

end

/-! ### Other workspaces -/

theorem not_prefix_append (hdisjoint : ¬ path <+: path') (hdisjoint' : ¬ path' <+: path)
    (rest rest' : FilePath) : ¬ path ++ rest <+: path' ++ rest' := by
  intro hprefix
  have hpath : path <+: path' ++ rest' := (List.prefix_append path rest).trans hprefix
  rcases List.prefix_or_prefix_of_prefix hpath (List.prefix_append path' rest') with h | h
  · exact hdisjoint h
  · exact hdisjoint' h

/-- Something is written in another workspace. -/
theorem ExamsKept.put_elsewhere {calls : Set (Generation Byte)} {files : Files (List Byte)}
    (h : ExamsKept path start (commandLineExams machine path start) calls opened files)
    (hdisjoint : ¬ path' <+: path) (hdisjoint' : ¬ path <+: path') (name : JString)
    (u : Files (List Byte)) :
    ExamsKept path start (commandLineExams machine path start) calls opened
      (files.put (path' ++ [name]) u) where
  hasParent name' :=
    (hasParent_put_elsewhere (not_prefix_append hdisjoint hdisjoint' _ _) u).mpr (h.hasParent name')
  others name' hname' rest := by
    rw [get_put_of_disjoint (not_prefix_append hdisjoint hdisjoint' _ _)
      (not_prefix_append hdisjoint' hdisjoint _ _)]
    exact h.others name' hname' rest
  exam name' hname' := by
    rw [get_put_of_disjoint (not_prefix_append hdisjoint hdisjoint' _ _)
      (not_prefix_append hdisjoint' hdisjoint _ _)]
    exact h.exam name' hname'
  writing := h.writing
  saved := h.saved

/-- What is known of a workspace depends on its own tasks only. -/
theorem Kept.congr (h : Kept machine path start application opened)
    (htasks : ∀ started, started.workspacePath = path →
      (started ∈ application'.tasks ↔ started ∈ application.tasks))
    (hexams : ExamsKept path start (commandLineExams machine path start) (application.calls path)
      opened application'.files) : Kept machine path start application' opened where
  tasks started hmem hpath := h.tasks started ((htasks started hpath).mp hmem) hpath
  exams := by
    have hcalls : application'.calls path = application.calls path := by
      ext generation
      constructor
      · rintro ⟨started, hmem, hpath, hcall⟩
        exact ⟨started, (htasks started hpath).mp hmem, hpath, hcall⟩
      · rintro ⟨started, hmem, hpath, hcall⟩
        exact ⟨started, (htasks started hpath).mpr hmem, hpath, hcall⟩
    rwa [hcalls]

theorem mem_set_iff_of_ne {tasks : List (StartedTask Byte)} {index : ℕ}
    {started started' started'' : StartedTask Byte} (hindex : tasks[index]? = some started)
    (hne : started'' ≠ started) (hne' : started'' ≠ started') :
    started'' ∈ tasks.set index started' ↔ started'' ∈ tasks := by
  rw [List.mem_iff_getElem?, List.mem_iff_getElem?]
  refine exists_congr fun i => ?_
  by_cases heq : index = i
  · subst heq
    rw [List.getElem?_set_self (List.getElem?_eq_some_iff.mp hindex).1, hindex,
      Option.some.injEq, Option.some.injEq]
    exact ⟨fun h => absurd h.symm hne', fun h => absurd h.symm hne⟩
  · rw [List.getElem?_set_ne heq]

/-- A workspace in which nothing happens while a task of another one takes a step. -/
theorem Kept.elsewhere (h : Kept machine path start application opened)
    (hdisjoint : ¬ path' <+: path) (hdisjoint' : ¬ path <+: path') {index : ℕ}
    {started started' : StartedTask Byte} (hindex : application.tasks[index]? = some started)
    (hpath : started.workspacePath = path') (hpath' : started'.workspacePath = path')
    (htasks : application'.tasks = application.tasks.set index started')
    (hfiles : application'.files = application.files ∨ ∃ name u,
      application'.files = application.files.put (path' ++ [name]) u) :
    Kept machine path start application' opened := by
  have hne : path' ≠ path := by
    rintro rfl
    exact hdisjoint (List.prefix_refl _)
  refine h.congr (fun started'' hpath'' => ?_) ?_
  · rw [htasks]
    refine mem_set_iff_of_ne hindex ?_ ?_
    · rintro rfl
      exact hne (hpath.symm.trans hpath'')
    · rintro rfl
      exact hne (hpath'.symm.trans hpath'')
  · rcases hfiles with hfiles | ⟨name, u, hfiles⟩
    · rw [hfiles]
      exact h.exams
    · rw [hfiles]
      exact h.exams.put_elsewhere hdisjoint hdisjoint' name u

/-! ### All workspaces -/

/-- The workspaces of the tasks that have been started. -/
def Application.workspacePaths (application : Application Byte) : List FilePath :=
  application.tasks.map StartedTask.workspacePath

/-- The command line ends well on each of some workspaces, and none of them is inside of another. -/
structure GoodWorkspaces (machine : Machine (List Byte)) (start : Files (List Byte))
    (paths : List FilePath) : Prop where
  endsWell : ∀ path ∈ paths, (ExamGeneratorNg.generateAllExamVariants
    (environmentOf machine path start)).result = .ok ()
  separate : ∀ path ∈ paths, ∀ path' ∈ paths, path <+: path' → path = path'

variable (machine start) in
/-- What is known of the application at any time, where the command line ends well on the
workspaces of all tasks. -/
structure ApplicationInv (application : Application Byte) : Prop where
  kept : ∀ path, (ExamGeneratorNg.generateAllExamVariants
      (environmentOf machine path start)).result = .ok () →
    (∀ path' ∈ application.workspacePaths, path' <+: path ∨ path <+: path' → path' = path) →
    ∃ opened, Kept machine path start application opened
  elsewhere : ∀ path content,
    (∀ path' ∈ application.workspacePaths, ∀ name ∈ examDocuments, ¬ path' ++ [name] <+: path) →
    (application.files.get path = .file content ↔ start.get path = .file content)

theorem GoodWorkspaces.exists_kept
    (hgood : GoodWorkspaces machine start application.workspacePaths)
    (h : ApplicationInv machine start application) (hpath : path ∈ application.workspacePaths) :
    ∃ opened, Kept machine path start application opened :=
  h.kept path (hgood.endsWell path hpath) fun path' hpath' hrelated =>
    hrelated.elim (hgood.separate path' hpath' path hpath) fun hrelated =>
      (hgood.separate path hpath path' hpath' hrelated).symm

theorem next_task_ok [Inhabited Byte] {index : ℕ} {action : TaskAction}
    (h : (applicationOnFiles machine).next (.task index action) application = some application') :
    ∃ started s, application.tasks[index]? = some started
      ∧ TaskStep machine started.workspacePath
          ⟨started.task, started.generations, application.files⟩ s
      ∧ application'.tasks
        = application.tasks.set index ⟨started.workspacePath, s.task, s.generations⟩
      ∧ application'.workspacePaths = application.workspacePaths
      ∧ application'.files = s.files := by
  obtain ⟨started, hindex, hrest⟩ := Option.bind_eq_some_iff.mp h
  obtain ⟨s, hnext, heq⟩ := Option.bind_eq_some_iff.mp hrest
  obtain rfl := Option.some.inj heq
  refine ⟨started, s, hindex, taskStep_of_next hnext, rfl, ?_, rfl⟩
  obtain ⟨hlt, hget⟩ := List.getElem?_eq_some_iff.mp hindex
  show List.map _ (application.tasks.set index _) = List.map _ application.tasks
  rw [List.map_set, ← hget, ← List.getElem_map StartedTask.workspacePath (h := by simpa),
    List.set_getElem_self]

theorem startTask_ok {project : Project} (h : application.startTask project = some application') :
    application'.tasks = application.tasks ++ [⟨project.workspacePath, newProjectTask, ∅⟩]
      ∧ application'.files = application.files := by
  unfold Application.startTask at h
  split_ifs at h
  obtain rfl := Option.some.inj h
  exact ⟨rfl, rfl⟩

theorem ApplicationInv.startTask {project : Project} (h : ApplicationInv machine start application)
    (hstart : application.startTask project = some application') :
    ApplicationInv machine start application' := by
  obtain ⟨htasks, hfiles⟩ := startTask_ok hstart
  have hpaths : application.workspacePaths ⊆ application'.workspacePaths := by
    unfold Application.workspacePaths
    rw [htasks, List.map_append]
    exact List.subset_append_left _ _
  refine ⟨fun path henv hseparate => ?_, fun path content hpath => ?_⟩
  · obtain ⟨opened, hkept⟩ := h.kept path henv fun path' hpath' => hseparate path' (hpaths hpath')
    refine ⟨opened, fun started hmem hpath => ?_, ?_⟩
    · rw [htasks] at hmem
      rcases List.mem_append.mp hmem with hmem | hmem
      · exact hkept.tasks started hmem hpath
      · obtain rfl := List.mem_singleton.mp hmem
        refine ⟨⟨⟨[], rfl⟩, fun group generation hlookup => ?_⟩, nofun⟩
        rw [AList.lookup_empty] at hlookup
        cases hlookup
    · have hcalls : application'.calls path = application.calls path := by
        unfold Application.calls
        rw [htasks]
        ext generation
        constructor
        · rintro ⟨started, hmem, hpath, group, hlookup⟩
          rcases List.mem_append.mp hmem with hmem | hmem
          · exact ⟨started, hmem, hpath, group, hlookup⟩
          · obtain rfl := List.mem_singleton.mp hmem
            rw [AList.lookup_empty] at hlookup
            cases hlookup
        · rintro ⟨started, hmem, hrest⟩
          exact ⟨started, List.mem_append_left _ hmem, hrest⟩
      rw [hcalls, hfiles]
      exact hkept.exams
  · rw [hfiles]
    exact h.elsewhere path content fun path' hpath' => hpath path' (hpaths hpath')

theorem ApplicationInv.task [Inhabited Byte] (h : ApplicationInv machine start application)
    (hsave : ∀ content, machine.saves (.file content) = .ok ())
    (hgood : GoodWorkspaces machine start application.workspacePaths) {index : ℕ}
    {action : TaskAction}
    (hnext : (applicationOnFiles machine).next (.task index action) application
      = some application') : ApplicationInv machine start application' := by
  obtain ⟨started, s, hindex, hstep, htasks, hpaths, hfiles⟩ := next_task_ok hnext
  have hmem := List.mem_of_getElem? hindex
  have hpath : started.workspacePath ∈ application.workspacePaths := List.mem_map_of_mem hmem
  have henv := hgood.endsWell _ hpath
  obtain ⟨opened, hkept⟩ := hgood.exists_kept h hpath
  have hwritten := hstep.files_eq (hkept.tasks started hmem rfl).1
  refine ⟨fun path henv' hseparate => ?_, fun path content hpath' => ?_⟩
  · rw [hpaths] at hseparate
    by_cases heq : started.workspacePath = path
    · subst heq
      exact hkept.step henv hsave hindex rfl hstep htasks hfiles
    · obtain ⟨opened', hkept'⟩ := h.kept path henv' hseparate
      refine ⟨opened', hkept'.elsewhere (fun hprefix => heq (hseparate _ hpath (.inl hprefix)))
        (fun hprefix => heq (hseparate _ hpath (.inr hprefix))) hindex rfl ?_ htasks ?_⟩
      · rfl
      rw [hfiles]
      rcases hwritten with hwritten | ⟨name, -, content, hwritten⟩
      · exact .inl hwritten
      · exact .inr ⟨name, _, hwritten⟩
  · rw [hpaths] at hpath'
    rw [hfiles, ← h.elsewhere path content hpath']
    rcases hwritten with hwritten | ⟨name, hname, content', hwritten⟩
    · rw [hwritten]
    · rw [hwritten, get_put_eq_file_iff (hpath' _ hpath name hname)]

/-- A task in which nothing can happen any more is complete. -/
theorem Kept.quiescent [Inhabited Byte] (h : Kept machine path start application opened)
    (henv : (ExamGeneratorNg.generateAllExamVariants (environmentOf machine path start)).result
      = .ok ())
    (hsave : ∀ content, machine.saves (.file content) = .ok ()) {started : StartedTask Byte}
    (hmem : started ∈ application.tasks) (hpath : started.workspacePath = path)
    (hended : ∀ index action,
      (applicationOnFiles machine).next (.task index action) application = none) :
    (projectTask (environmentOf machine path start)).Quiescent started.task
    ∧ ∀ group, started.generations.lookup group = none := by
  refine (h.tasks started hmem hpath).1.quiescent (fun action => ?_)
    (h.answersAlike henv hsave hmem hpath)
  obtain ⟨index, hindex⟩ := List.getElem?_of_mem hmem
  have hnone := hended index action
  change (application.tasks[index]?.bind _) = none at hnone
  rw [hindex, Option.bind_some] at hnone
  subst hpath
  by_contra hsome
  obtain ⟨s, hnext⟩ := Option.ne_none_iff_exists'.mp hsome
  exact nomatch Option.bind_eq_none_iff.mp hnone _ hnext

end ExamGeneratorNg.Workspace
