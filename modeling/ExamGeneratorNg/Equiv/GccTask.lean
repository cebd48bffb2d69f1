import ExamGeneratorNg.Equiv.GccCompiler
import ExamGeneratorNg.Equiv.WorkspaceTask
import ExamGeneratorNg.Ui.GccTask

/-!
# Tasks do not see how they are interleaved with `g++`

A `ProjectTask` whose compilations and programs run statement by statement, in a directory that they
share with each other and with other programs, is at any time in a state that it reaches as well if
they take no time and each has its files for itself (`gccTask_refines`).  So all that is known of a
`ProjectTask` in an `Environment` holds with `g++`.

The invariant is that of the compilations, with the fact that nothing in a task depends on the names
of a compilation that has not ended (`TaskInv`).
-/

namespace ExamGeneratorNg.Gcc

open Promise Transition

variable {Content : Type} {toolchain : Toolchain Content} {env : Environment}
  {files files' : TempFiles Content} {s s' : GccTask Content} {programId programId' : ProgramId}
  {group group' : Group} {compilation compilation' : Compilation Content}
  {names : ProgramId → Group → Option (JString × JString)}

/-! ### The compilation of a program -/

theorem mem_compilations (h : s.compilation programId group = some compilation) :
    compilation ∈ s.compilations.compilations :=
  List.mem_of_getElem? h

theorem mem_calls (hlength : s.calls.length = s.compilations.compilations.length)
    (h : s.compilation programId group = some compilation) : (programId, group) ∈ s.calls := by
  have hlt := (List.getElem?_eq_some_iff.mp h).1
  rw [← hlength] at hlt
  exact List.idxOf_lt_length_iff.mp hlt

theorem exists_compilation (hlength : s.calls.length = s.compilations.compilations.length)
    (hmem : (programId, group) ∈ s.calls) :
    ∃ compilation, s.compilation programId group = some compilation := by
  have hlt := List.idxOf_lt_length_iff.mpr hmem
  rw [hlength] at hlt
  exact ⟨_, List.getElem?_eq_getElem hlt⟩

/-- A new compilation is that of its program and group. -/
theorem compilation_append (hlength : s.calls.length = s.compilations.compilations.length)
    (hnew : (programId, group) ∉ s.calls) (compilation : Compilation Content) :
    (⟨s.task, s.calls ++ [(programId, group)],
        ⟨s.compilations.compilations ++ [compilation], files⟩⟩ : GccTask Content).compilation
      programId' group'
    = if (programId', group') = (programId, group) then some compilation
      else s.compilation programId' group' := by
  unfold GccTask.compilation
  dsimp only
  split_ifs with heq
  · rw [heq, List.idxOf_append_of_notMem hnew, List.idxOf_cons_self, Nat.add_zero, hlength,
      List.getElem?_append_right le_rfl, Nat.sub_self]
    rfl
  · by_cases hmem : (programId', group') ∈ s.calls
    · have hlt := List.idxOf_lt_length_iff.mpr hmem
      rw [List.idxOf_append_of_mem hmem, List.getElem?_append_left (hlength ▸ hlt)]
    · -- neither list has as many elements
      have hbeyond : s.calls.idxOf (programId', group') = s.calls.length :=
        List.idxOf_eq_length_iff.mpr hmem
      rw [List.idxOf_append_of_notMem hmem, List.idxOf_cons_ne _ (Ne.symm heq), hbeyond, hlength]
      rw [List.getElem?_eq_none (by simp), List.getElem?_eq_none le_rfl]

/-- A compilation that goes on is that of its program and group. -/
theorem compilation_set (hlength : s.calls.length = s.compilations.compilations.length)
    (h : s.compilation programId group = some compilation)
    (compilation' : Compilation Content) :
    (⟨s.task, s.calls, ⟨s.compilations.compilations.set (s.calls.idxOf (programId, group))
        compilation', files⟩⟩ : GccTask Content).compilation programId' group'
    = if (programId', group') = (programId, group) then some compilation'
      else s.compilation programId' group' := by
  have hmem := mem_calls hlength h
  have hlt := (List.getElem?_eq_some_iff.mp h).1
  unfold GccTask.compilation
  dsimp only
  rw [List.getElem?_set]
  split_ifs with hindex heq heq
  · rfl
  · exact absurd ((List.idxOf_inj hmem).mp hindex).symm heq
  · exact absurd (congrArg s.calls.idxOf heq).symm hindex
  · rfl

/-! ### The names of the files -/

/-- The names of the files of the compilations that have returned. -/
def GccTask.fileNames (s : GccTask Content) : ProgramId → Group → Option (JString × JString) :=
  fun programId group => (s.compilation programId group).bind fun c => c.stage.fileNames

/-- Names that the compilations that have ended have, or will have. -/
def GccTask.Supports (s : GccTask Content)
    (names : ProgramId → Group → Option (JString × JString)) : Prop :=
  ∀ programId group compilation result, s.compilation programId group = some compilation →
    compilation.stage.result = some result → names programId group = compilation.stage.fileNames

theorem supports_fileNames (s : GccTask Content) : s.Supports s.fileNames := by
  intro programId group compilation result hcompilation _
  unfold GccTask.fileNames
  rw [hcompilation]
  rfl

/-- The names do not change any more when a compilation has ended. -/
theorem Next.fileNames_eq {names : List JString} {sourceCode : List JString}
    {stage stage' : Stage Content} (h : Next toolchain names files sourceCode stage files' stage')
    {result : Except JavaException GccOutput} (hresult : stage.result = some result) :
    (∃ result', stage'.result = some result') ∧ stage'.fileNames = stage.fileNames := by
  cases h with
  | execute sourceCodeFile programPath output cppProgram hprogram => exact ⟨⟨_, rfl⟩, rfl⟩
  | _ => cases hresult

variable (env) in
/-- A compilation that has ended has given what it gives in the world with its names. -/
theorem Stage.Inv.result_eq {sourceCode : List JString} {stage : Stage Content}
    (h : stage.Inv toolchain files sourceCode) {result : Except JavaException GccOutput}
    (hresult : stage.result = some result) (hnames : names programId group = stage.fileNames) :
    result.map (GccOutput.compilerOutput toolchain files)
      = (toolchain.environmentWith env names).compile programId group sourceCode := by
  have hright := h.right
  unfold Toolchain.environmentWith
  dsimp only
  rw [hnames]
  cases stage with
  | refused sourceCodeFile =>
    cases hresult
    rfl
  | returned sourceCodeFile programPath result =>
    cases hresult
    exact IsResult.map_eq hright
  | executed sourceCodeFile programPath output processOutput =>
    cases hresult
    exact IsResult.map_eq hright.1
  | _ => cases hresult

/-! ### The invariant -/

theorem loaded_environmentWith_iff {programTemplate : ProgramTemplate} :
    Loaded (toolchain.environmentWith env names) programId programTemplate
      ↔ Loaded env programId programTemplate := by
  unfold Loaded
  have hload : loadProgramTemplates (toolchain.environmentWith env names)
      = loadProgramTemplates env :=
    loadProgramTemplates_congr fun _ _ => rfl
  rw [hload]

variable (toolchain env) in
/-- What is known of a task and its compilations at any time. -/
structure TaskInv (s : GccTask Content) : Prop where
  compilations : CompilationsInv toolchain s.compilations
  length : s.calls.length = s.compilations.compilations.length
  source : ∀ programId group compilation, s.compilation programId group = some compilation →
    ∃ programTemplate, Loaded env programId programTemplate
      ∧ compilation.sourceCode = (realizeProgramTemplate programTemplate .compiler group).lines
  reachable : ∀ names, s.Supports names →
    (projectTask (toolchain.environmentWith env names)).Reachable newProjectTask s.task

theorem TaskInv.due (h : TaskInv toolchain env s) (hnames : s.Supports names) {supplier : Supplier}
    (hmem : supplier ∈ s.task.tasks) : Due (toolchain.environmentWith env names) supplier := by
  obtain ⟨past, hpast⟩ := (h.reachable names hnames).history
  exact (inv_of_history hpast).due supplier hmem

/-- Something happens in the task, as in every world whose names are those of the run. -/
theorem TaskInv.task (h : TaskInv toolchain env s) {task : TaskState}
    {action : Promise.Action PromiseRef} (hnext : ∀ names, s.Supports names →
      (projectTask (toolchain.environmentWith env names)).next s.task action = some task) :
    TaskInv toolchain env { s with task := task } where
  compilations := h.compilations
  length := h.length
  source := h.source
  reachable names hnames := (h.reachable names hnames).next (hnext names hnames)

/-- A task calls `compile`. -/
theorem TaskInv.compile (h : TaskInv toolchain env s) {programTemplate : ProgramTemplate}
    (hmem : .compileProgramTemplate programId programTemplate group ∈ s.task.tasks)
    (hnew : (programId, group) ∉ s.calls) :
    TaskInv toolchain env ⟨s.task, s.calls ++ [(programId, group)],
      { s.compilations with compilations := s.compilations.compilations ++
        [⟨(realizeProgramTemplate programTemplate .compiler group).lines, .called⟩] }⟩ where
  compilations := h.compilations.compile _
  length := by
    rw [List.length_append, List.length_append, h.length]
    rfl
  source programId' group' compilation' hcompilation' := by
    rw [compilation_append h.length hnew] at hcompilation'
    split_ifs at hcompilation' with heq
    · cases heq
      cases hcompilation'
      have hdue := h.due (supports_fileNames s) hmem
      exact ⟨programTemplate, loaded_environmentWith_iff.mp hdue.1, rfl⟩
    · exact h.source programId' group' compilation' hcompilation'
  reachable names hnames := by
    refine h.reachable names fun programId' group' compilation' result hcompilation' hresult => ?_
    refine hnames programId' group' compilation' result ?_ hresult
    rw [compilation_append h.length hnew, if_neg, hcompilation']
    rintro heq
    cases heq
    exact hnew (mem_calls h.length hcompilation')

/-- A compilation goes on. -/
theorem TaskInv.statement (h : TaskInv toolchain env s)
    (hcompilation : s.compilation programId group = some compilation) {stage : Stage Content}
    (hnext : Next toolchain s.compilations.names s.compilations.files compilation.sourceCode
      compilation.stage files stage) :
    TaskInv toolchain env ⟨s.task, s.calls,
      ⟨s.compilations.compilations.set (s.calls.idxOf (programId, group))
        ⟨compilation.sourceCode, stage⟩, files⟩⟩ where
  compilations := h.compilations.step hcompilation hnext
  length := by
    rw [List.length_set]
    exact h.length
  source programId' group' compilation' hcompilation' := by
    rw [compilation_set h.length hcompilation] at hcompilation'
    split_ifs at hcompilation' with heq
    · cases heq
      cases hcompilation'
      exact h.source programId group compilation hcompilation
    · exact h.source programId' group' compilation' hcompilation'
  reachable names hnames := by
    refine h.reachable names fun programId' group' compilation' result hcompilation' hresult => ?_
    by_cases heq : (programId', group') = (programId, group)
    · cases heq
      obtain rfl := Option.some.inj (hcompilation'.symm.trans hcompilation)
      obtain ⟨⟨result', hresult'⟩, hsame⟩ := hnext.fileNames_eq hresult
      rw [← hsame]
      refine hnames programId group ⟨compilation'.sourceCode, stage⟩ result' ?_ hresult'
      rw [compilation_set h.length hcompilation, if_pos rfl]
    · refine hnames programId' group' compilation' result ?_ hresult
      rw [compilation_set h.length hcompilation, if_neg heq, hcompilation']

/-! ### What `compile` and `execute` give to a task -/

/-- What is compiled is the program of the workspace. -/
theorem TaskInv.sourceCode_eq (h : TaskInv toolchain env s)
    (hcompilation : s.compilation programId group = some compilation)
    {programTemplate : ProgramTemplate}
    (hloaded : Loaded (toolchain.environmentWith env names) programId programTemplate) :
    compilation.sourceCode = (realizeProgramTemplate programTemplate .compiler group).lines := by
  obtain ⟨programTemplate', hloaded', hsource⟩ := h.source _ _ _ hcompilation
  obtain rfl := (loaded_environmentWith_iff.mp hloaded).unique hloaded'
  exact hsource

/-- A task in which `compile` has ended ends as in the world with its names. -/
theorem TaskInv.compiled (h : TaskInv toolchain env s)
    (hcompilation : s.compilation programId group = some compilation)
    {result : Except JavaException GccOutput} (hresult : compilation.stage.result = some result)
    (hnames : s.Supports names) :
    (projectTask (toolchain.environmentWith env names)).next s.task
        (.task (.compilerOutput programId group))
      = (projectTask { env with
          compile := fun _ _ _ =>
            result.map (GccOutput.compilerOutput toolchain s.compilations.files) }).next s.task
          (.task (.compilerOutput programId group)) := by
  have hinv := h.compilations.inv compilation (mem_compilations hcompilation)
  have hsame := hinv.result_eq env hresult (hnames _ _ _ _ hcompilation hresult)
  refine next_congr fun supplier hmem haction => ?_
  have hdue := h.due hnames hmem
  cases supplier with
  | compileProgramTemplate programId' programTemplate group' =>
    cases haction
    unfold runSupplier compileProgramTemplate
    dsimp only
    rw [hsame, h.sourceCode_eq hcompilation hdue.1]
  | _ => cases haction

/-- What the compiler gives for a program of the workspace is what it has answered. -/
theorem compile_of_isCompilerOutput {compilerOutput : CompilerOutput}
    (h : IsCompilerOutput env programId group compilerOutput) :
    ∃ programTemplate, Loaded env programId programTemplate
      ∧ env.compile programId group (realizeProgramTemplate programTemplate .compiler group).lines
        = .ok compilerOutput := by
  obtain ⟨programTemplate, hloaded, hresult⟩ := h
  refine ⟨programTemplate, hloaded, ?_⟩
  unfold compileProgramTemplate at hresult
  cases hcompile : env.compile programId group
      (realizeProgramTemplate programTemplate .compiler group).lines with
  | error e =>
    dsimp only at hresult
    rw [hcompile] at hresult
    cases hresult
  | ok output =>
    dsimp only at hresult
    rw [hcompile] at hresult
    obtain ⟨diagnostics, program⟩ := output
    cases diagnostics <;> exact hresult

/-- A program that has been run has been compiled. -/
theorem exists_result_of_program {stage : Stage Content} {program : Option Program}
    (h : stage.program = some program) : ∃ result, stage.result = some result := by
  cases stage with
  | returned sourceCodeFile programPath result => exact ⟨result, rfl⟩
  | executed sourceCodeFile programPath output result => exact ⟨.ok output, rfl⟩
  | _ => cases h

variable (env) in
/-- What a program has been run with is what the compiler has given for it. -/
theorem Stage.Inv.program_eq {sourceCode : List JString} {stage : Stage Content}
    (h : stage.Inv toolchain files sourceCode) {program : Option Program}
    (hprogram : stage.program = some program) (hnames : names programId group = stage.fileNames)
    {compilerOutput : CompilerOutput} (hcompile :
      (toolchain.environmentWith env names).compile programId group sourceCode
        = .ok compilerOutput) :
    compilerOutput.program = program := by
  have hright := h.right
  cases stage with
  | returned sourceCodeFile programPath result =>
    obtain e | ⟨diagnostics, cppProgram⟩ := result
    · cases hprogram
    · cases cppProgram with
      | some cppProgram => cases hprogram
      | none =>
        cases hprogram
        rw [← h.result_eq env rfl hnames] at hcompile
        cases hcompile
        rfl
  | executed sourceCodeFile programPath output result =>
    cases hprogram
    rw [← h.result_eq env rfl hnames] at hcompile
    cases hcompile
    obtain ⟨-, cppProgram, hcppProgram, rfl⟩ := hright
    unfold GccOutput.compilerOutput
    rw [hcppProgram]
    rfl
  | _ => cases hprogram

/-- A task in which a program has been run ends as in the world with the names of its files. -/
theorem TaskInv.executed (h : TaskInv toolchain env s)
    (hcompilation : s.compilation programId group = some compilation) {program : Option Program}
    (hprogram : compilation.stage.program = some program) (hnames : s.Supports names) :
    (projectTask (toolchain.environmentWith env names)).next s.task
        (.task (.runOutput programId group))
      = System.next
          { projectTask env with
            finish := fun supplier => finish env (withProgram program supplier) }
          s.task (.task (.runOutput programId group)) := by
  obtain ⟨result, hresult⟩ := exists_result_of_program hprogram
  have hinv := h.compilations.inv compilation (mem_compilations hcompilation)
  refine System.next_task_congr rfl fun supplier hmem hpromise => ?_
  have hdue := h.due hnames hmem
  cases supplier with
  | runProgram programId' compilerOutput group' =>
    cases hpromise
    obtain ⟨programTemplate, hloaded, hcompile⟩ := compile_of_isCompilerOutput hdue.1
    rw [← h.sourceCode_eq hcompilation hloaded] at hcompile
    obtain rfl := hinv.program_eq env hprogram (hnames _ _ _ _ hcompilation hresult) hcompile
    rfl
  | _ => cases hpromise

/-! ### The task at work -/

/-- The other tasks do not compile anything. -/
theorem runSupplier_environmentWith {supplier : Supplier} (h : usesGcc supplier.promise = false) :
    runSupplier (toolchain.environmentWith env names) supplier = runSupplier env supplier := by
  cases supplier with
  | loadProgramTemplates =>
    exact congrArg Effectful.ofExcept (loadProgramTemplates_congr fun _ _ => rfl)
  | generateExamVariants group programPipelineMap processOutputs => rfl
  | _ => cases h

/-- The program of a task that compiles. -/
theorem exists_compileProgramTemplate {supplier : Supplier}
    (h : supplier.promise = .compilerOutput programId group) :
    ∃ programTemplate, supplier = .compileProgramTemplate programId programTemplate group := by
  cases supplier with
  | compileProgramTemplate programId' programTemplate group' =>
    cases h
    exact ⟨programTemplate, rfl⟩
  | _ => cases h

/-- Other programs write or delete files. -/
theorem TaskInv.other (h : TaskInv toolchain env s) {name : JString} {content : Option Content}
    {compilations : Compilations Content}
    (hnext : (gccCompiler toolchain).next (.other name content) s.compilations
      = some compilations) :
    TaskInv toolchain env { s with compilations := compilations } := by
  have hsame := next_other_compilations hnext
  have hcompilation : ∀ programId group,
      GccTask.compilation { s with compilations := compilations } programId group
        = s.compilation programId group := by
    intro programId group
    unfold GccTask.compilation
    rw [hsame]
  refine ⟨h.compilations.next hnext, ?_, ?_, ?_⟩
  · rw [hsame]
    exact h.length
  · intro programId group compilation hcompiled
    rw [hcompilation] at hcompiled
    exact h.source programId group compilation hcompiled
  · intro names hnames
    refine h.reachable names fun programId group compilation result hcompiled => ?_
    rw [← hcompilation] at hcompiled
    exact hnames programId group compilation result hcompiled

/-- Whatever happens keeps the invariant. -/
theorem TaskInv.next (h : TaskInv toolchain env s) {action : TaskAction Content}
    (hstep : (gccTask toolchain env).next action s = some s') : TaskInv toolchain env s' := by
  cases action with
  | callback ref =>
    obtain ⟨task, hnext, rfl⟩ := Option.map_eq_some_iff.mp hstep
    refine h.task fun names _ => Eq.trans (next_congr fun supplier _ haction => ?_) hnext
    cases haction
  | task ref =>
    change (if usesGcc ref then none else _) = some s' at hstep
    split_ifs at hstep with hgcc
    obtain ⟨task, hnext, rfl⟩ := Option.map_eq_some_iff.mp hstep
    refine h.task fun names _ => Eq.trans (next_congr fun supplier _ haction => ?_) hnext
    cases haction
    exact runSupplier_environmentWith (eq_false_of_ne_true hgcc)
  | compile programId group =>
    obtain ⟨supplier, hfind, hrest⟩ := Option.bind_eq_some_iff.mp hstep
    obtain ⟨programTemplate, rfl⟩ :=
      exists_compileProgramTemplate (of_decide_eq_true (List.find?_some hfind :))
    change (if (programId, group) ∈ s.calls then none else _) = some s' at hrest
    split_ifs at hrest with hcalls
    cases hrest
    exact h.compile (List.mem_of_find?_eq_some hfind) hcalls
  | statement programId group statement =>
    change (if _ then none else _) = some s' at hstep
    split_ifs at hstep
    obtain ⟨compilations, hnext, heq⟩ := Option.bind_eq_some_iff.mp hstep
    cases heq
    obtain ⟨compilation, files, stage, hcompilation, hgoes, rfl⟩ := next_statement_ok hnext
    exact h.statement hcompilation (next_cases hgoes)
  | compiled programId group =>
    obtain ⟨compilation, hcompilation, hrest⟩ := Option.bind_eq_some_iff.mp hstep
    obtain ⟨result, hresult, hrest⟩ := Option.bind_eq_some_iff.mp hrest
    obtain ⟨task, hnext, rfl⟩ := Option.map_eq_some_iff.mp hrest
    exact h.task fun names hnames => (h.compiled hcompilation hresult hnames).trans hnext
  | executed programId group =>
    obtain ⟨compilation, hcompilation, hrest⟩ := Option.bind_eq_some_iff.mp hstep
    obtain ⟨program, hprogram, hrest⟩ := Option.bind_eq_some_iff.mp hrest
    obtain ⟨task, hnext, rfl⟩ := Option.map_eq_some_iff.mp hrest
    exact h.task fun names hnames => (h.executed hcompilation hprogram hnames).trans hnext
  | other name content =>
    obtain ⟨compilations, hnext, heq⟩ := Option.bind_eq_some_iff.mp hstep
    cases heq
    exact h.other hnext

variable (toolchain env) in
/-- Nothing can happen any more in the task itself. -/
def GccTask.Stuck (s : GccTask Content) : Prop :=
  ∀ action : TaskAction Content, action.isOwn → (gccTask toolchain env).next action s = none

/-- A program that a task is to compile is being compiled. -/
theorem mem_calls_of_stuck (hstuck : s.Stuck toolchain env) {programTemplate : ProgramTemplate}
    (hmem : .compileProgramTemplate programId programTemplate group ∈ s.task.tasks) :
    (programId, group) ∈ s.calls := by
  by_contra hnew
  have hnone := hstuck (.compile programId group) rfl
  have hsome : (s.task.tasks.find? fun supplier =>
      supplier.promise = .compilerOutput programId group).isSome :=
    List.find?_isSome.mpr ⟨_, hmem, decide_eq_true rfl⟩
  obtain ⟨supplier, hfind⟩ := Option.isSome_iff_exists.mp hsome
  obtain ⟨programTemplate', rfl⟩ :=
    exists_compileProgramTemplate (of_decide_eq_true (List.find?_some hfind :))
  change Option.bind _ _ = none at hnone
  rw [hfind] at hnone
  change (if (programId, group) ∈ s.calls then none else _) = none at hnone
  rw [if_neg hnew] at hnone
  cases hnone

/-- No statement is next in a task that cannot go on, unless it is a call of `execute` that the task
does not make. -/
theorem next_eq_none_of_stuck (hstuck : s.Stuck toolchain env)
    (hcompilation : s.compilation programId group = some compilation) {statement : Statement}
    (hmem : statement = .execute →
      ∃ supplier ∈ s.task.tasks, supplier.promise = .runOutput programId group) :
    next toolchain s.compilations.names s.compilations.files compilation.sourceCode
      compilation.stage statement = none := by
  have hnone := hstuck (.statement programId group statement) rfl
  change (if _ then none else _) = none at hnone
  rw [if_neg] at hnone
  · by_contra hne
    obtain ⟨⟨files, stage⟩, hnext⟩ := Option.ne_none_iff_exists'.mp hne
    change Option.bind (Option.bind (s.compilation programId group) _) _ = none at hnone
    rw [hcompilation] at hnone
    change Option.bind (Option.bind (next _ _ _ compilation.sourceCode _ _) _) _ = none at hnone
    rw [hnext] at hnone
    cases hnone
  · rintro ⟨hexecute, hno⟩
    obtain ⟨supplier, hsupplier, hpromise⟩ := hmem hexecute
    exact hno supplier hsupplier hpromise

theorem remaining_eq_zero_of_execute {names : List JString} {sourceCode : List JString}
    {stage : Stage Content} {p : TempFiles Content × Stage Content}
    (h : next toolchain names files sourceCode stage .execute = some p) : stage.remaining = 0 := by
  cases stage <;> first | rfl | cases h

/-- `compile` has ended in a task that cannot go on. -/
theorem remaining_eq_zero_of_stuck (hstuck : s.Stuck toolchain env)
    (hcompilation : s.compilation programId group = some compilation) :
    compilation.stage.remaining = 0 := by
  by_contra hremaining
  obtain ⟨statement, files, stage, hnext, -⟩ := exists_next hremaining
  refine absurd (next_eq_none_of_stuck hstuck hcompilation ?_) (Option.ne_none_iff_exists'.mpr
    ⟨_, hnext⟩)
  rintro rfl
  exact absurd (remaining_eq_zero_of_execute hnext) hremaining

theorem exists_result_of_remaining {stage : Stage Content} (h : stage.remaining = 0) :
    ∃ result, stage.result = some result := by
  cases stage with
  | refused sourceCodeFile => exact ⟨_, rfl⟩
  | returned sourceCodeFile programPath result => exact ⟨_, rfl⟩
  | executed sourceCodeFile programPath output result => exact ⟨_, rfl⟩
  | _ => cases h

/-- No task is left to compile a program. -/
theorem TaskInv.notMem_compile (h : TaskInv toolchain env s) (hstuck : s.Stuck toolchain env)
    {programTemplate : ProgramTemplate} :
    .compileProgramTemplate programId programTemplate group ∉ s.task.tasks := by
  intro hmem
  obtain ⟨compilation, hcompilation⟩ := exists_compilation h.length (mem_calls_of_stuck hstuck hmem)
  obtain ⟨result, hresult⟩ :=
    exists_result_of_remaining (remaining_eq_zero_of_stuck hstuck hcompilation)
  have hrest := Option.bind_eq_none_iff.mp (hstuck (.compiled programId group) rfl) _ hcompilation
  have hends := Option.map_eq_none_iff.mp (Option.bind_eq_none_iff.mp hrest _ hresult)
  exact System.next_task_eq_none_iff.mp hends _ hmem rfl

/-- There is no program to be run. -/
theorem program_eq_none_of_stuck (hstuck : s.Stuck toolchain env) {compilerOutput : CompilerOutput}
    (hmem : .runProgram programId compilerOutput group ∈ s.task.tasks)
    (hcompilation : s.compilation programId group = some compilation)
    {sourceCodeFile programPath : JString} {output : GccOutput}
    (hstage : compilation.stage = .returned sourceCodeFile programPath (.ok output)) :
    output.program = none := by
  have hnone := @next_eq_none_of_stuck _ _ _ _ _ _ _ hstuck hcompilation .execute fun _ =>
    ⟨_, hmem, rfl⟩
  rw [hstage] at hnone
  change Option.bind _ _ = none at hnone
  cases hprogram : output.program with
  | none => rfl
  | some cppProgram =>
    rw [hprogram] at hnone
    cases hnone

/-- A program that is to be run has been run. -/
theorem TaskInv.exists_program (h : TaskInv toolchain env s) (hstuck : s.Stuck toolchain env)
    {compilerOutput : CompilerOutput}
    (hmem : .runProgram programId compilerOutput group ∈ s.task.tasks) :
    ∃ compilation program, s.compilation programId group = some compilation
      ∧ compilation.stage.program = some program := by
  obtain ⟨programTemplate, hloaded, hcompile⟩ :=
    compile_of_isCompilerOutput (h.due (supports_fileNames s) hmem).1
  -- it has been compiled: without names there is no output
  cases hnames : s.fileNames programId group with
  | none =>
    unfold Toolchain.environmentWith at hcompile
    dsimp only at hcompile
    rw [hnames] at hcompile
    cases hcompile
  | some fileNames =>
    obtain ⟨compilation, hcompilation, hfileNames⟩ := Option.bind_eq_some_iff.mp hnames
    rw [← h.sourceCode_eq hcompilation hloaded] at hcompile
    have hinv := h.compilations.inv compilation (mem_compilations hcompilation)
    cases hstage : compilation.stage with
    | returned sourceCodeFile programPath result =>
      cases result with
      | ok output =>
        have hprogram := program_eq_none_of_stuck hstuck hmem hcompilation hstage
        obtain ⟨diagnostics, program⟩ := output
        cases hprogram
        refine ⟨compilation, none, hcompilation, ?_⟩
        rw [hstage]
        rfl
      | error e =>
        have hresult : compilation.stage.result = some (.error e) := by
          rw [hstage]
          rfl
        rw [← hinv.result_eq env hresult (supports_fileNames s _ _ _ _ hcompilation hresult)]
          at hcompile
        cases hcompile
    | executed sourceCodeFile programPath output result =>
      refine ⟨compilation, some ⟨result⟩, hcompilation, ?_⟩
      rw [hstage]
      rfl
    | _ =>
      rw [hstage] at hfileNames
      cases hfileNames

/-- No task is left to run a program. -/
theorem TaskInv.notMem_run (h : TaskInv toolchain env s) (hstuck : s.Stuck toolchain env)
    {compilerOutput : CompilerOutput} :
    .runProgram programId compilerOutput group ∉ s.task.tasks := by
  intro hmem
  obtain ⟨compilation, program, hcompilation, hprogram⟩ := h.exists_program hstuck hmem
  have hrest := Option.bind_eq_none_iff.mp (hstuck (.executed programId group) rfl) _ hcompilation
  have hends := Option.map_eq_none_iff.mp (Option.bind_eq_none_iff.mp hrest _ hprogram)
  exact System.next_task_eq_none_iff.mp hends _ hmem rfl

/-- A task that cannot go on has come to its end in the world with the names of its files. -/
theorem TaskInv.quiescent (h : TaskInv toolchain env s) (hstuck : s.Stuck toolchain env) :
    (projectTask (toolchain.environmentWith env s.fileNames)).Quiescent s.task := by
  refine System.quiescent_iff.mpr fun action => ?_
  cases action with
  | callback ref => exact Option.map_eq_none_iff.mp (hstuck (.callback ref) rfl)
  | task ref =>
    refine System.next_task_eq_none_iff.mpr fun supplier hmem hpromise => ?_
    cases hgcc : usesGcc ref with
    | false =>
      have hnone := hstuck (.task ref) rfl
      change (if usesGcc ref then none else _) = none at hnone
      rw [hgcc] at hnone
      exact System.next_task_eq_none_iff.mp (Option.map_eq_none_iff.mp hnone) supplier hmem hpromise
    | true =>
      cases supplier with
      | compileProgramTemplate programId programTemplate group => exact h.notMem_compile hstuck hmem
      | runProgram programId compilerOutput group => exact h.notMem_run hstuck hmem
      | _ =>
        cases hpromise
        cases hgcc

/-- Where `compile` has ended, nothing but a call of `execute` is next. -/
theorem eq_execute_of_remaining {names : List JString} {sourceCode : List JString}
    {stage : Stage Content} {statement : Statement} {p : TempFiles Content × Stage Content}
    (h : next toolchain names files sourceCode stage statement = some p)
    (hremaining : stage.remaining = 0) : statement = .execute := by
  cases stage <;> cases hremaining <;> cases statement <;> first | rfl | cases h

/-- Nothing can happen in a task that has come to its end when its compilations have. -/
theorem stuck_of_quiescent (hquiescent : (projectTask env).Quiescent s.task)
    (hended : ∀ compilation ∈ s.compilations.compilations, compilation.stage.remaining = 0) :
    s.Stuck toolchain env := by
  intro action hown
  by_contra hsome
  obtain ⟨s', hstep⟩ := Option.ne_none_iff_exists'.mp hsome
  have hno : ∀ supplier, supplier ∉ s.task.tasks := by
    rw [hquiescent.1]
    exact fun _ => List.not_mem_nil
  cases action with
  | callback ref =>
    obtain ⟨task, hnext, -⟩ := Option.map_eq_some_iff.mp hstep
    rw [System.quiescent_iff.mp hquiescent] at hnext
    cases hnext
  | task ref =>
    change (if usesGcc ref then none else _) = some s' at hstep
    split_ifs at hstep
    obtain ⟨task, hnext, -⟩ := Option.map_eq_some_iff.mp hstep
    rw [System.quiescent_iff.mp hquiescent] at hnext
    cases hnext
  | compile programId group =>
    obtain ⟨supplier, hfind, -⟩ := Option.bind_eq_some_iff.mp hstep
    exact hno _ (List.mem_of_find?_eq_some hfind)
  | statement programId group statement =>
    change (if _ then none else _) = some s' at hstep
    split_ifs at hstep with hexecute
    obtain ⟨compilations, hnext, -⟩ := Option.bind_eq_some_iff.mp hstep
    obtain ⟨compilation, files, stage, hcompilation, hgoes, -⟩ := next_statement_ok hnext
    have hremaining := hended compilation (List.mem_of_getElem? hcompilation)
    exact hexecute ⟨eq_execute_of_remaining hgoes hremaining, fun _ hmem => absurd hmem (hno _)⟩
  | compiled programId group =>
    obtain ⟨compilation, -, hrest⟩ := Option.bind_eq_some_iff.mp hstep
    obtain ⟨result, -, hrest⟩ := Option.bind_eq_some_iff.mp hrest
    obtain ⟨task, hnext, -⟩ := Option.map_eq_some_iff.mp hrest
    rw [System.next_task_eq_none_iff.mpr fun _ hmem => absurd hmem (hno _)] at hnext
    cases hnext
  | executed programId group =>
    obtain ⟨compilation, -, hrest⟩ := Option.bind_eq_some_iff.mp hstep
    obtain ⟨program, -, hrest⟩ := Option.bind_eq_some_iff.mp hrest
    obtain ⟨task, hnext, -⟩ := Option.map_eq_some_iff.mp hrest
    rw [System.next_task_eq_none_iff.mpr fun _ hmem => absurd hmem (hno _)] at hnext
    cases hnext
  | other name content => cases hown

end ExamGeneratorNg.Gcc
