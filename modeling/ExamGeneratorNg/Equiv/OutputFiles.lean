import ExamGeneratorNg.Equiv.ProgramRunning
import ExamGeneratorNg.FileTree.Lemmas
import ExamGeneratorNg.Workspace

/-!
# The files with the outputs

The directory `outputs` is replaced as a whole, by a tree that depends on the outputs only, and
nothing else changes (`generateFilesWithProgramsOutputs_ok_iff`).

Everything that is done below a directory is local to it (`FileTree.Local`), so that a directory
can be looked at as a tree of its own while it is filled.
-/

namespace ExamGeneratorNg

open FileTree

variable {Content : Type}

/-! ### Names of directories -/

/-- Numbers have different decimals. -/
theorem toDecimal_injective {m n : ℕ} (h : toDecimal m = toDecimal n) : m = n := by
  have hleft : ∀ n : ℕ, ((toDecimal n).map fun c => Char.ofNat c.toNat) = Nat.toDigits 10 n := by
    intro n
    unfold toDecimal
    rw [if_neg (by omega), List.nil_append, Int.natAbs_natCast, List.map_map]
    have hdigit : ∀ c ∈ Nat.toDigits 10 n, Char.ofNat (chr c).toNat = c := by
      intro c hc
      have hdigit := Nat.isDigit_of_mem_toDigits (by decide) (by decide) hc
      have hlt : c.toNat < 2 ^ 16 := by
        simp only [Char.isDigit, Bool.and_eq_true, decide_eq_true_eq] at hdigit
        have hle : c.toNat ≤ 57 := hdigit.2
        omega
      unfold chr
      rw [UInt16.toNat_ofNat_of_lt' hlt, Char.ofNat_toNat]
    exact (List.map_congr_left hdigit).trans (List.map_id _)
  have hdigits : Nat.toDigits 10 m = Nat.toDigits 10 n := by rw [← hleft, ← hleft, h]
  rw [← Nat.ofDigitChars_ten_toDigits (n := m), hdigits, Nat.ofDigitChars_ten_toDigits]

theorem programId_eq {programId programId' : ProgramId}
    (h : toDecimal programId.id = toDecimal programId'.id) : programId = programId' := by
  cases programId
  cases programId'
  rw [ProgramId.mk.injEq]
  exact toDecimal_injective h

/-! ### What operations do where there is a directory -/

theorem except_bind_ok_iff {α β : Type} {x : Except JavaException α}
    {f : α → Except JavaException β} {b : β} :
    (x >>= f) = .ok b ↔ ∃ a, x = .ok a ∧ f a = .ok b := by
  cases x with
  | error e => exact ⟨nofun, nofun⟩
  | ok a => exact ⟨fun h => ⟨a, rfl, h⟩, fun ⟨_, ha, h⟩ => Except.ok.inj ha ▸ h⟩

theorem local_createDirectory (path path' : FilePath) :
    Local path (fun files : Files Content => createDirectory (path ++ path') files)
      (createDirectory path') := by
  intro t ht
  show orIoException (FileTree.createDirectory (path ++ path') t) = _
  rw [createDirectory_append ht]
  unfold createDirectory
  cases FileTree.createDirectory path' (t.get path) <;> rfl

theorem local_writeFile (path path' : FilePath) (content : Content) :
    Local path (writeFile (path ++ path') content) (writeFile path' content) := by
  intro t ht
  unfold writeFile
  rw [write_append ht]
  cases FileTree.write path' content (t.get path) <;> rfl

theorem createDirectory_ok_iff {path : FilePath} {files files' : Files Content} :
    createDirectory path files = .ok files'
      ↔ files.HasParent path ∧ (files.get path).isNothing
        ∧ files' = files.put path emptyDirectory := by
  unfold createDirectory FileTree.createDirectory orIoException
  by_cases h : files.HasParent path ∧ (files.get path).isNothing
  · rw [if_pos h]
    simp [h, eq_comm]
  · rw [if_neg h]
    simp only [reduceCtorEq, false_iff]
    exact fun hall => h ⟨hall.1, hall.2.1⟩

theorem mapError_ok_iff {α : Type} {x : Except JavaException α}
    {f : JavaException → JavaException} {a : α} : x.mapError f = .ok a ↔ x = .ok a := by
  cases x with
  | error e => exact ⟨nofun, nofun⟩
  | ok a' => exact Iff.rfl

namespace Workspace

variable (machine : Machine Content)

/-! ### The tree of the outputs -/

/-- The directory of a program. -/
def outputTree (programOutput : ProgramOutput) : Files Content :=
  .directory fun name =>
    if name = jstr "standard output.txt" then .file (machine.encode programOutput.standardOutput)
    else if name = jstr "error output.txt" then .file (machine.encode programOutput.errorOutput)
    else .nothing

/-- The directory of a group, with a directory for each program. -/
def groupTree (groupOutputs : JMap ProgramId ProgramOutput) : Files Content :=
  .directory fun name =>
    (groupOutputs.entries.find? fun entry => toDecimal entry.1.id = name).elim .nothing
      fun entry => outputTree machine entry.2

/-- What a table has for a group. -/
def groupRow (programOutputMap : JMap ProgramId (JMap Group ProgramOutput)) (group : Group) :
    JMap ProgramId ProgramOutput :=
  match (extractGroupOutputs programOutputMap group).result with
  | .ok groupOutputs => groupOutputs
  | .error _ => ∅

/-- The directory `outputs`, with a directory for each group. -/
def outputsTree (programOutputMap : JMap ProgramId (JMap Group ProgramOutput)) : Files Content :=
  .directory fun name =>
    if name = Group.A.getIdentifier then groupTree machine (groupRow programOutputMap Group.A)
    else if name = Group.B.getIdentifier then groupTree machine (groupRow programOutputMap Group.B)
    else .nothing

/-! ### The directory of a program -/

variable {machine}

theorem local_generateFilesWithProgramOutput (destinyDirectory : FilePath) (programId : ProgramId)
    (programOutput : ProgramOutput) :
    Local (destinyDirectory ++ [toDecimal programId.id])
      (generateFilesWithProgramOutput machine destinyDirectory programId programOutput)
      (fun files => do
        let files ← createDirectory [] files
        let files ← writeFile [jstr "standard output.txt"]
          (machine.encode programOutput.standardOutput) files
        writeFile [jstr "error output.txt"] (machine.encode programOutput.errorOutput) files) := by
  have hcreate : Local (destinyDirectory ++ [toDecimal programId.id])
      (fun files : Files Content => createDirectory (_ ++ []) files) (createDirectory []) :=
    local_createDirectory _ []
  rw [List.append_nil] at hcreate
  exact hcreate.bind ((local_writeFile _ _ _).bind (local_writeFile _ _ _))

/-- The directory of a program is made where there is nothing yet. -/
theorem generateFilesWithProgramOutput_ok {destinyDirectory : FilePath} {programId : ProgramId}
    {programOutput : ProgramOutput} {files : Files Content}
    (hparent : files.HasParent (destinyDirectory ++ [toDecimal programId.id]))
    (hnothing : files.get (destinyDirectory ++ [toDecimal programId.id]) = .nothing) :
    generateFilesWithProgramOutput machine destinyDirectory programId programOutput files
      = .ok (files.put (destinyDirectory ++ [toDecimal programId.id])
          (outputTree machine programOutput)) := by
  rw [local_generateFilesWithProgramOutput _ _ _ files hparent, hnothing]
  have hnames : jstr "error output.txt" ≠ jstr "standard output.txt" := by decide
  refine congrArg (fun u => Except.ok (files.put _ u)) (congrArg FileTree.directory ?_)
  funext name
  by_cases hname : name = jstr "error output.txt"
  · subst hname
    rw [Function.update_self, if_neg hnames, if_pos rfl]
    rfl
  · rw [Function.update_of_ne hname]
    by_cases hname' : name = jstr "standard output.txt"
    · subst hname'
      rw [Function.update_self, if_pos rfl]
      rfl
    · rw [Function.update_of_ne hname', if_neg hname', if_neg hname]

/-! ### The directory of a group -/

/-- What is done for a group is local to the directory of the group. -/
theorem local_generateFilesWithProgramsOutputsForGroup (machine : Machine Content)
    (groupOutputs : JMap ProgramId ProgramOutput) (path path' : FilePath) :
    Local path (generateFilesWithProgramsOutputsForGroup machine groupOutputs (path ++ path'))
      (generateFilesWithProgramsOutputsForGroup machine groupOutputs path') := by
  unfold generateFilesWithProgramsOutputsForGroup
  have hcreate : Local path
      (fun files : Files Content => createDirectoryIfNotExists (path ++ path') files)
      (createDirectoryIfNotExists path') :=
    Local.ite (fun t => by rw [get_append]) (local_createDirectory path path') local_pure
  refine hcreate.bind (Local.foldlM _ fun programId _ => ?_)
  cases groupOutputs.lookup programId with
  | none => exact local_error _
  | some programOutput =>
    unfold generateFilesWithProgramOutput
    simp only [List.append_assoc]
    exact (local_createDirectory _ _).bind ((local_writeFile _ _ _).bind (local_writeFile _ _ _))

/-- The loop over the programs of a group, in the directory of the group. -/
theorem foldlM_generateFilesWithProgramOutput (machine : Machine Content)
    {entries : List (Entry ProgramId ProgramOutput)}
    (hnodup : entries.NodupKeys) (children : JString → Files Content)
    (hchildren : ∀ entry ∈ entries, children (toDecimal entry.1.id) = .nothing) :
    entries.foldlM (fun files entry =>
        generateFilesWithProgramOutput machine [] entry.1 entry.2 files)
      (FileTree.directory children)
      = .ok (.directory fun name =>
          (entries.find? fun entry => toDecimal entry.1.id = name).elim (children name)
            fun entry => outputTree machine entry.2) := by
  induction entries generalizing children with
  | nil => rfl
  | cons entry entries ih =>
    obtain ⟨programId, programOutput⟩ := entry
    obtain ⟨hnot_mem, hnodup⟩ := List.nodupKeys_cons.mp hnodup
    have hnothing := hchildren _ List.mem_cons_self
    have hstep : generateFilesWithProgramOutput machine [] programId programOutput
        (FileTree.directory children) = .ok (.directory (Function.update children
          (toDecimal programId.id) (outputTree machine programOutput))) := by
      have hparent : (FileTree.directory children).HasParent ([] ++ [toDecimal programId.id]) :=
        ⟨rfl, trivial⟩
      rw [generateFilesWithProgramOutput_ok hparent hnothing, List.nil_append, put_directory,
        put_nil]
    rw [List.foldlM_cons, hstep]
    show List.foldlM _ _ _ = _
    have hother : ∀ entry ∈ entries, toDecimal entry.1.id ≠ toDecimal programId.id := by
      intro entry hentry heq
      have hmem : entry.1 ∈ entries.keys := List.mem_keys_of_mem hentry
      rw [programId_eq heq] at hmem
      exact hnot_mem hmem
    rw [ih hnodup _ fun entry hentry => by
      rw [Function.update_of_ne (hother entry hentry)]
      exact hchildren entry (List.mem_cons_of_mem _ hentry)]
    refine congrArg (fun children => Except.ok (FileTree.directory children)) ?_
    funext name
    by_cases hname : toDecimal programId.id = name
    · subst hname
      rw [List.find?_cons_of_pos (by simp), List.find?_eq_none.mpr (by simpa using hother)]
      rw [Option.elim_none, Option.elim_some, Function.update_self]
    · rw [List.find?_cons_of_neg (by simpa using hname), Function.update_of_ne (Ne.symm hname)]

/-- The keys of a map with the values found under them are its entries. -/
theorem foldlM_keys {K V σ : Type} [DecidableEq K] {E : Type} (inputMap : JMap K V)
    {f : σ → K → Except E σ} {g : σ → Entry K V → Except E σ}
    (h : ∀ s k v, inputMap.lookup k = some v → f s k = g s ⟨k, v⟩) (s : σ) :
    inputMap.keys.foldlM f s = inputMap.entries.foldlM g s := by
  unfold AList.keys List.keys
  rw [List.foldlM_map]
  have hentries : ∀ entry ∈ inputMap.entries, inputMap.lookup entry.1 = some entry.2 :=
    fun entry hentry => AList.mem_lookup_iff.mpr hentry
  generalize inputMap.entries = entries at hentries
  induction entries generalizing s with
  | nil => rfl
  | cons entry entries ih =>
    rw [List.foldlM_cons, List.foldlM_cons, h s _ _ (hentries entry List.mem_cons_self)]
    refine bind_congr fun s' => ih s' fun entry' hentry' => ?_
    exact hentries entry' (List.mem_cons_of_mem _ hentry')

/-- The directory of a group is made where there is nothing yet. -/
theorem generateFilesWithProgramsOutputsForGroup_ok {path : FilePath}
    {groupOutputs : JMap ProgramId ProgramOutput} {files : Files Content}
    (hparent : files.HasParent path) (hnothing : files.get path = .nothing) :
    generateFilesWithProgramsOutputsForGroup machine groupOutputs path files
      = .ok (files.put path (groupTree machine groupOutputs)) := by
  have hlocal := local_generateFilesWithProgramsOutputsForGroup machine groupOutputs path []
  rw [List.append_nil] at hlocal
  rw [hlocal files hparent, hnothing]
  have hgroup : generateFilesWithProgramsOutputsForGroup machine groupOutputs [] .nothing
      = .ok (groupTree machine groupOutputs) := by
    have hloop := foldlM_generateFilesWithProgramOutput machine groupOutputs.nodupKeys
      (fun _ => .nothing) fun _ _ => rfl
    refine Eq.trans (foldlM_keys groupOutputs (fun files programId programOutput h => ?_) _) hloop
    rw [h]
  rw [hgroup]
  rfl

/-! ### The directory `outputs` -/

section

variable {programOutputMap : JMap ProgramId (JMap Group ProgramOutput)}

/-- Every program has an output for the group. -/
def HasOutputs (programOutputMap : JMap ProgramId (JMap Group ProgramOutput)) (group : Group) :
    Prop :=
  ∀ programId groupProgramOutputMap,
    programOutputMap.lookup programId = some groupProgramOutputMap →
      (groupProgramOutputMap.lookup group).isSome

/-- A group can be extracted if every program has an output for it. -/
theorem extractGroupOutputs_ok_iff {group : Group} {groupOutputs : JMap ProgramId ProgramOutput} :
    (extractGroupOutputs programOutputMap group).result = .ok groupOutputs
      ↔ HasOutputs programOutputMap group ∧ groupOutputs = groupRow programOutputMap group := by
  unfold groupRow
  constructor
  · intro h
    rw [h]
    refine ⟨fun programId groupProgramOutputMap hlookup => ?_, rfl⟩
    obtain ⟨programOutput, hvalue, -⟩ :=
      (lookup_of_collectToMap programOutputMap.nodupKeys h programId).1 _ hlookup
    rw [Except.ok.inj hvalue]
    rfl
  · rintro ⟨houtputs, rfl⟩
    obtain ⟨groupOutputs, hok⟩ : ∃ groupOutputs,
        (extractGroupOutputs programOutputMap group).result = .ok groupOutputs := by
      apply collectToMap_ok
      intro entry hentry
      obtain ⟨programOutput, hvalue⟩ := Option.isSome_iff_exists.mp
        (houtputs entry.1 entry.2 (AList.mem_lookup_iff.mpr hentry))
      exact ⟨programOutput, congrArg Except.ok hvalue⟩
    rw [hok]

/-- The part of the loop over the groups that is done for a group. -/
def generateGroup (machine : Machine Content)
    (programOutputMap : JMap ProgramId (JMap Group ProgramOutput)) (path : FilePath)
    (files : Files Content) (group : Group) : Except JavaException (Files Content) := do
  let groupOutputs ← (extractGroupOutputs programOutputMap group).result
  generateFilesWithProgramsOutputsForGroup machine groupOutputs (path ++ [group.getIdentifier])
    files

theorem generateGroup_ok_iff {path : FilePath} {group : Group} {files files' : Files Content}
    (hparent : files.HasParent (path ++ [group.getIdentifier]))
    (hnothing : files.get (path ++ [group.getIdentifier]) = .nothing) :
    generateGroup machine programOutputMap path files group = .ok files'
      ↔ HasOutputs programOutputMap group ∧ files' = files.put (path ++ [group.getIdentifier])
          (groupTree machine (groupRow programOutputMap group)) := by
  unfold generateGroup
  cases hextract : (extractGroupOutputs programOutputMap group).result with
  | error e =>
    have hnot : ¬ HasOutputs programOutputMap group := by
      intro houtputs
      rw [extractGroupOutputs_ok_iff.mpr ⟨houtputs, rfl⟩] at hextract
      cases hextract
    simp only [hnot, false_and, iff_false]
    nofun
  | ok groupOutputs =>
    obtain ⟨houtputs, rfl⟩ := extractGroupOutputs_ok_iff.mp hextract
    show generateFilesWithProgramsOutputsForGroup machine _ _ files = _ ↔ _
    rw [generateFilesWithProgramsOutputsForGroup_ok hparent hnothing, Except.ok.injEq, eq_comm]
    simp only [houtputs, true_and]

theorem local_generateGroup (machine : Machine Content) (path : FilePath) (group : Group) :
    Local path (generateGroup machine programOutputMap path · group)
      (generateGroup machine programOutputMap [] · group) := by
  unfold generateGroup
  cases (extractGroupOutputs programOutputMap group).result with
  | error e => exact local_error e
  | ok groupOutputs =>
    exact local_generateFilesWithProgramsOutputsForGroup machine groupOutputs path
      [group.getIdentifier]

/-- The loop over the groups, in an empty directory. -/
theorem foldlM_generateGroup_ok_iff {files : Files Content} :
    [Group.A, Group.B].foldlM (generateGroup machine programOutputMap []) emptyDirectory = .ok files
      ↔ HasOutputs programOutputMap Group.A ∧ HasOutputs programOutputMap Group.B
        ∧ files = outputsTree machine programOutputMap := by
  have hnames : Group.A.getIdentifier ≠ Group.B.getIdentifier := by decide
  let treeA := groupTree machine (groupRow programOutputMap Group.A)
  let treeB := groupTree machine (groupRow programOutputMap Group.B)
  have htree : (emptyDirectory.put [Group.A.getIdentifier] treeA).put [Group.B.getIdentifier] treeB
      = outputsTree machine programOutputMap := by
    refine congrArg FileTree.directory (funext fun name => ?_)
    by_cases hB : name = Group.B.getIdentifier
    · subst hB
      rw [Function.update_self, put_nil, if_neg hnames.symm, if_pos rfl]
    · rw [Function.update_of_ne hB, if_neg hB]
      by_cases hA : name = Group.A.getIdentifier
      · subst hA
        rw [Function.update_self, put_nil, if_pos rfl]
      · rw [Function.update_of_ne hA, if_neg hA]
  have hA : ∀ {files'}, generateGroup machine programOutputMap [] emptyDirectory Group.A
      = .ok files' ↔ HasOutputs programOutputMap Group.A
        ∧ files' = emptyDirectory.put [Group.A.getIdentifier] treeA :=
    generateGroup_ok_iff ⟨rfl, trivial⟩ rfl
  have hB : ∀ {files'}, generateGroup machine programOutputMap []
      (emptyDirectory.put [Group.A.getIdentifier] treeA) Group.B
      = .ok files' ↔ HasOutputs programOutputMap Group.B ∧ files'
        = (emptyDirectory.put [Group.A.getIdentifier] treeA).put [Group.B.getIdentifier] treeB := by
    refine generateGroup_ok_iff ⟨rfl, trivial⟩ ?_
    exact child_put_of_ne (t := emptyDirectory) hnames [] treeA
  rw [List.foldlM_cons, except_bind_ok_iff]
  constructor
  · rintro ⟨files', hfirst, hsecond⟩
    obtain ⟨houtputsA, rfl⟩ := hA.mp hfirst
    rw [List.foldlM_cons, except_bind_ok_iff] at hsecond
    obtain ⟨files'', hsecond, hend⟩ := hsecond
    obtain ⟨houtputsB, rfl⟩ := hB.mp hsecond
    rw [htree] at hend
    exact ⟨houtputsA, houtputsB, (Except.ok.inj hend).symm⟩
  · rintro ⟨houtputsA, houtputsB, rfl⟩
    refine ⟨_, hA.mpr ⟨houtputsA, rfl⟩, ?_⟩
    rw [List.foldlM_cons, except_bind_ok_iff]
    exact ⟨_, hB.mpr ⟨houtputsB, rfl⟩, congrArg Except.ok htree⟩

/-- The loop over the groups, in a directory that has just been created. -/
theorem foldlM_generateGroup_put_ok_iff {path : FilePath} {files files' : Files Content}
    (hparent : files.HasParent path) :
    [Group.A, Group.B].foldlM (generateGroup machine programOutputMap path)
        (files.put path emptyDirectory) = .ok files'
      ↔ HasOutputs programOutputMap Group.A ∧ HasOutputs programOutputMap Group.B
        ∧ files' = files.put path (outputsTree machine programOutputMap) := by
  have hlocal : Local path
      (fun files => [Group.A, Group.B].foldlM (generateGroup machine programOutputMap path) files)
      (fun files => [Group.A, Group.B].foldlM (generateGroup machine programOutputMap []) files) :=
    Local.foldlM _ fun group _ => local_generateGroup machine path group
  have hloop := hlocal (files.put path emptyDirectory) ((hasParent_put _).mpr hparent)
  rw [get_put hparent] at hloop
  have hput : (files.put path emptyDirectory).put path = files.put path :=
    funext fun u => put_put files path _ u
  rw [hput] at hloop
  change List.foldlM _ _ _ = Except.map _ (List.foldlM _ _ _) at hloop
  rw [hloop]
  constructor
  · intro h
    cases hall : [Group.A, Group.B].foldlM (generateGroup machine programOutputMap [])
        emptyDirectory with
    | error e =>
      rw [hall] at h
      cases h
    | ok u =>
      rw [hall] at h
      obtain ⟨hA, hB, rfl⟩ := foldlM_generateGroup_ok_iff.mp hall
      exact ⟨hA, hB, (Except.ok.inj h).symm⟩
  · rintro ⟨hA, hB, rfl⟩
    rw [foldlM_generateGroup_ok_iff.mpr ⟨hA, hB, rfl⟩]
    rfl

/-- **The directory `outputs` is replaced as a whole**, by the outputs of all programs, and
everything else stays as it is; this ends well if what was there can be deleted, there is a
directory to put the outputs into, and every program has an output for both groups. -/
theorem generateFilesWithProgramsOutputs_ok_iff {path : FilePath} {files files' : Files Content} :
    generateFilesWithProgramsOutputs machine programOutputMap path files = .ok files'
      ↔ machine.deletes (files.get (path ++ [jstr "outputs"])) = .ok ()
        ∧ files.HasParent (path ++ [jstr "outputs"])
        ∧ HasOutputs programOutputMap Group.A ∧ HasOutputs programOutputMap Group.B
        ∧ files' = files.put (path ++ [jstr "outputs"]) (outputsTree machine programOutputMap) := by
  let outputs : FilePath := path ++ [jstr "outputs"]
  have hcreate : ∀ {files'}, createDirectory outputs (files.put outputs .nothing) = .ok files'
      ↔ files.HasParent outputs ∧ files' = files.put outputs emptyDirectory := by
    intro files'
    rw [createDirectory_ok_iff, hasParent_put, put_put]
    constructor
    · rintro ⟨hparent, -, rfl⟩
      exact ⟨hparent, rfl⟩
    · rintro ⟨hparent, rfl⟩
      exact ⟨hparent, by rw [get_put hparent]; rfl, rfl⟩
  unfold generateFilesWithProgramsOutputs
  rw [mapError_ok_iff, except_bind_ok_iff]
  constructor
  · rintro ⟨files₁, hdelete, h⟩
    obtain ⟨_, hdeletes, hdelete⟩ := except_bind_ok_iff.mp hdelete
    obtain rfl := Except.ok.inj hdelete
    obtain ⟨files₂, hdirectory, h⟩ := except_bind_ok_iff.mp h
    obtain ⟨hparent, rfl⟩ := hcreate.mp hdirectory
    exact ⟨hdeletes, hparent, (foldlM_generateGroup_put_ok_iff hparent).mp h⟩
  · rintro ⟨hdeletes, hparent, hgroups⟩
    refine ⟨files.put outputs .nothing, except_bind_ok_iff.mpr ⟨(), hdeletes, rfl⟩, ?_⟩
    refine except_bind_ok_iff.mpr ⟨_, hcreate.mpr ⟨hparent, rfl⟩, ?_⟩
    exact (foldlM_generateGroup_put_ok_iff hparent).mpr hgroups

/-! ### The files that are written -/

/-- A path through a directory leads to a file if the rest of it does. -/
theorem get_directory_eq_file_iff {children : JString → Files Content} {path : FilePath}
    {content : Content} :
    (FileTree.directory children).get path = .file content
      ↔ ∃ name rest, path = name :: rest ∧ (children name).get rest = .file content := by
  cases path with
  | nil => exact ⟨nofun, nofun⟩
  | cons name rest =>
    constructor
    · exact fun h => ⟨name, rest, rfl, h⟩
    · rintro ⟨_, _, heq, h⟩
      obtain ⟨rfl, rfl⟩ := List.cons.inj heq
      exact h

theorem get_nothing (path : FilePath) : (.nothing : Files Content).get path = .nothing := by
  induction path with
  | nil => rfl
  | cons name path ih => exact ih

theorem get_file_eq_file_iff {content content' : Content} {path : FilePath} :
    (.file content : Files Content).get path = .file content' ↔ path = [] ∧ content' = content := by
  cases path with
  | nil => simp [eq_comm]
  | cons name path =>
    have hnothing : (.file content : Files Content).get (name :: path) = .nothing :=
      get_nothing path
    simp [hnothing]

/-- The two files of a program: their names and contents. -/
def IsOutputFile (machine : Machine Content) (programOutput : ProgramOutput) (name : JString)
    (content : Content) : Prop :=
  name = jstr "standard output.txt" ∧ content = machine.encode programOutput.standardOutput
  ∨ name = jstr "error output.txt" ∧ content = machine.encode programOutput.errorOutput

theorem get_outputTree_iff {programOutput : ProgramOutput} {path : FilePath} {content : Content} :
    (outputTree machine programOutput).get path = .file content
      ↔ ∃ name, path = [name] ∧ IsOutputFile machine programOutput name content := by
  have hnames : jstr "error output.txt" ≠ jstr "standard output.txt" := by decide
  unfold outputTree IsOutputFile
  rw [get_directory_eq_file_iff]
  constructor
  · rintro ⟨name, rest, rfl, h⟩
    split_ifs at h with hstandard herror
    · obtain ⟨rfl, rfl⟩ := get_file_eq_file_iff.mp h
      exact ⟨name, rfl, .inl ⟨hstandard, rfl⟩⟩
    · obtain ⟨rfl, rfl⟩ := get_file_eq_file_iff.mp h
      exact ⟨name, rfl, .inr ⟨herror, rfl⟩⟩
    · rw [get_nothing] at h
      cases h
  · rintro ⟨name, rfl, ⟨rfl, rfl⟩ | ⟨rfl, rfl⟩⟩
    · exact ⟨_, [], rfl, by rw [if_pos rfl]; rfl⟩
    · exact ⟨_, [], rfl, by rw [if_neg hnames, if_pos rfl]; rfl⟩

theorem get_groupTree_iff {groupOutputs : JMap ProgramId ProgramOutput} {path : FilePath}
    {content : Content} :
    (groupTree machine groupOutputs).get path = .file content
      ↔ ∃ programId programOutput name, groupOutputs.lookup programId = some programOutput
        ∧ path = [toDecimal programId.id, name]
        ∧ IsOutputFile machine programOutput name content := by
  unfold groupTree
  rw [get_directory_eq_file_iff]
  constructor
  · rintro ⟨directoryName, rest, rfl, h⟩
    cases hfind : groupOutputs.entries.find? fun entry =>
        toDecimal entry.1.id = directoryName with
    | none =>
      rw [hfind, Option.elim_none, get_nothing] at h
      cases h
    | some entry =>
      rw [hfind, Option.elim_some] at h
      obtain ⟨name, rfl, hfile⟩ := get_outputTree_iff.mp h
      have hname : toDecimal entry.1.id = directoryName := by
        simpa using List.find?_some hfind
      have hlookup := AList.mem_lookup_iff.mpr (List.mem_of_find?_eq_some hfind)
      exact ⟨entry.1, entry.2, name, hlookup, by rw [hname], hfile⟩
  · rintro ⟨programId, programOutput, name, hlookup, rfl, hfile⟩
    refine ⟨_, [name], rfl, ?_⟩
    have hentry := AList.mem_lookup_iff.mp hlookup
    -- no other program has a directory of this name
    cases hfind : groupOutputs.entries.find? fun entry =>
        toDecimal entry.1.id = toDecimal programId.id with
    | none => exact absurd (by simp) (List.find?_eq_none.mp hfind _ hentry)
    | some entry =>
      have hname : toDecimal entry.1.id = toDecimal programId.id := by
        simpa using List.find?_some hfind
      have hlookup' : groupOutputs.lookup entry.1 = some entry.2 :=
        AList.mem_lookup_iff.mpr (List.mem_of_find?_eq_some hfind)
      rw [programId_eq hname, hlookup, Option.some.injEq] at hlookup'
      subst hlookup'
      exact get_outputTree_iff.mpr ⟨name, rfl, hfile⟩

theorem get_outputsTree_iff {path : FilePath} {content : Content} :
    (outputsTree machine programOutputMap).get path = .file content
      ↔ ∃ group programId programOutput name, (group = Group.A ∨ group = Group.B)
        ∧ (groupRow programOutputMap group).lookup programId = some programOutput
        ∧ path = [group.getIdentifier, toDecimal programId.id, name]
        ∧ IsOutputFile machine programOutput name content := by
  have hnames : Group.B.getIdentifier ≠ Group.A.getIdentifier := by decide
  unfold outputsTree
  rw [get_directory_eq_file_iff]
  constructor
  · rintro ⟨directoryName, rest, rfl, h⟩
    split_ifs at h with hA hB
    · obtain ⟨programId, programOutput, name, hlookup, rfl, hfile⟩ := get_groupTree_iff.mp h
      exact ⟨Group.A, programId, programOutput, name, .inl rfl, hlookup, by rw [hA], hfile⟩
    · obtain ⟨programId, programOutput, name, hlookup, rfl, hfile⟩ := get_groupTree_iff.mp h
      exact ⟨Group.B, programId, programOutput, name, .inr rfl, hlookup, by rw [hB], hfile⟩
    · rw [get_nothing] at h
      cases h
  · rintro ⟨group, programId, programOutput, name, hgroup, hlookup, rfl, hfile⟩
    have hrest := get_groupTree_iff.mpr ⟨programId, programOutput, name, hlookup, rfl, hfile⟩
    refine ⟨_, _, rfl, ?_⟩
    rcases hgroup with rfl | rfl
    · rw [if_pos rfl]
      exact hrest
    · rw [if_neg hnames, if_pos rfl]
      exact hrest

/-- What a group has in a table with outputs for all programs. -/
theorem lookup_groupRow {group : Group} (h : HasOutputs programOutputMap group)
    (programId : ProgramId) (programOutput : ProgramOutput) :
    (groupRow programOutputMap group).lookup programId = some programOutput
      ↔ ∃ groupProgramOutputMap, programOutputMap.lookup programId = some groupProgramOutputMap
        ∧ groupProgramOutputMap.lookup group = some programOutput := by
  have hextract := extractGroupOutputs_ok_iff.mpr ⟨h, rfl⟩
  rw [lookup_of_toMap hextract]
  simp

/-- The files in the directory of the outputs, for a table with outputs for all programs. -/
theorem get_outputsTree_rows_iff (hA : HasOutputs programOutputMap Group.A)
    (hB : HasOutputs programOutputMap Group.B) {path : FilePath} {content : Content} :
    (outputsTree machine programOutputMap).get path = .file content
      ↔ ∃ group programId groupProgramOutputMap programOutput name,
        (group = Group.A ∨ group = Group.B)
        ∧ programOutputMap.lookup programId = some groupProgramOutputMap
        ∧ groupProgramOutputMap.lookup group = some programOutput
        ∧ path = [group.getIdentifier, toDecimal programId.id, name]
        ∧ IsOutputFile machine programOutput name content := by
  have hgroups : ∀ group, group = Group.A ∨ group = Group.B →
      HasOutputs programOutputMap group := by
    rintro group (rfl | rfl)
    · exact hA
    · exact hB
  rw [get_outputsTree_iff]
  constructor
  · rintro ⟨group, programId, programOutput, name, hgroup, hlookup, hrest, hfile⟩
    obtain ⟨row, hrow, hvalue⟩ := (lookup_groupRow (hgroups group hgroup) _ _).mp hlookup
    exact ⟨group, programId, row, programOutput, name, hgroup, hrow, hvalue, hrest, hfile⟩
  · rintro ⟨group, programId, row, programOutput, name, hgroup, hrow, hvalue, hrest, hfile⟩
    have hlookup := (lookup_groupRow (hgroups group hgroup) _ _).mpr ⟨row, hrow, hvalue⟩
    exact ⟨group, programId, programOutput, name, hgroup, hlookup, hrest, hfile⟩

/-- **The files of the directory `outputs`** after it has been written: for every program and each
of the two groups, one with the lines of its standard output and one with those of its error
output, and no others, whatever was there before. -/
theorem outputs_file_iff {path rest : FilePath} {files files' : Files Content} {content : Content}
    (h : generateFilesWithProgramsOutputs machine programOutputMap path files = .ok files') :
    files'.get (path ++ jstr "outputs" :: rest) = .file content
      ↔ ∃ group programId groupProgramOutputMap programOutput name,
        (group = Group.A ∨ group = Group.B)
        ∧ programOutputMap.lookup programId = some groupProgramOutputMap
        ∧ groupProgramOutputMap.lookup group = some programOutput
        ∧ rest = [group.getIdentifier, toDecimal programId.id, name]
        ∧ IsOutputFile machine programOutput name content := by
  obtain ⟨-, hparent, hA, hB, rfl⟩ := generateFilesWithProgramsOutputs_ok_iff.mp h
  have hpath : path ++ jstr "outputs" :: rest = (path ++ [jstr "outputs"]) ++ rest :=
    List.append_cons _ _ _
  rw [hpath, get_append, get_put hparent]
  exact get_outputsTree_rows_iff hA hB

end

/-! ### An example -/

/-- A computer whose files are sequences of lines and of documents, where the programs of all
workspaces write a line and exit with status 0. -/
def exampleMachine : Machine (List (JString ⊕ Node)) where
  decode content := content.flatMap fun part => part.elim id fun _ => []
  encode lines := lines.map .inl
  loadDocument
    | .file (.inr contentDom :: _) => .ok contentDom
    | _ => .error .ioException
  saveDocument _ contentDom := [.inr contentDom, .inl (jstr "end")]
  saves
    | .directory _ => .error .ioException
    | _ => .ok ()
  deletes
    | .file _ => .error .illegalArgumentException
    | _ => .ok ()
  compile _ _ _ := .ok ⟨[], some ⟨.ok ⟨[jstr "ok"], [], 0⟩⟩⟩
  toLowerCase := asciiToLowerCase

/-- A directory `outputs` that is there already. -/
def exampleOldOutputs : Files (List (JString ⊕ Node)) :=
  .directory fun name => if name = jstr "old" then .file [] else .nothing

/-- Files with a workspace that has one program, an exam template without placeholders, and old
outputs; and a file elsewhere. -/
def exampleFiles : Files (List (JString ⊕ Node)) :=
  let workspace : Files (List (JString ⊕ Node)) := .directory fun name =>
    if name = jstr "01.cpp" then .file []
    else if name = templateName then .file [.inr (.node (.element (some 0) (.other []) []) [])]
    else if name = jstr "outputs" then exampleOldOutputs
    else .nothing
  .directory fun name =>
    if name = jstr "workspace" then workspace
    else if name = jstr "notes" then .file []
    else .nothing

def examplePath : FilePath := [jstr "workspace"]

/-- A program that has written a line. -/
def exampleOutputs : JMap ProgramId (JMap Group ProgramOutput) :=
  (∅ : JMap ProgramId (JMap Group ProgramOutput)).insert (ProgramId.fromIndex 0)
    (((∅ : JMap Group ProgramOutput).insert Group.A ⟨[jstr "ok"], []⟩).insert
      Group.B ⟨[jstr "ok"], []⟩)

theorem hasOutputs_exampleOutputs {group : Group} (hgroup : group = Group.A ∨ group = Group.B) :
    HasOutputs exampleOutputs group := by
  intro programId row hrow
  unfold exampleOutputs at hrow
  by_cases hid : programId = ProgramId.fromIndex 0
  · subst hid
    rw [AList.lookup_insert, Option.some.injEq] at hrow
    subst hrow
    rcases hgroup with rfl | rfl <;> decide
  · rw [AList.lookup_insert_ne hid, AList.lookup_empty] at hrow
    cases hrow

/-- The line is there, and the old file is not. -/
theorem outputs_file_iff_example : ∃ files',
    generateFilesWithProgramsOutputs exampleMachine exampleOutputs examplePath exampleFiles
      = .ok files'
    ∧ files'.get (examplePath ++ [jstr "outputs", jstr "B", jstr "1", jstr "standard output.txt"])
      = .file [.inl (jstr "ok")]
    ∧ exampleFiles.get (examplePath ++ [jstr "outputs", jstr "old"]) = .file []
    ∧ ∀ content, files'.get (examplePath ++ [jstr "outputs", jstr "old"]) ≠ .file content := by
  have hok : generateFilesWithProgramsOutputs exampleMachine exampleOutputs examplePath exampleFiles
      = .ok _ :=
    generateFilesWithProgramsOutputs_ok_iff.mpr ⟨rfl, by decide,
      hasOutputs_exampleOutputs (.inl rfl), hasOutputs_exampleOutputs (.inr rfl), rfl⟩
  refine ⟨_, hok, (outputs_file_iff hok).mpr ?_, rfl, fun content h => ?_⟩
  · exact ⟨Group.B, ProgramId.fromIndex 0, _, _, _, .inr rfl, rfl, rfl, rfl, .inl ⟨rfl, rfl⟩⟩
  · obtain ⟨_, _, _, _, _, -, -, -, hrest, -⟩ := (outputs_file_iff hok).mp h
    exact absurd (congrArg List.length hrest) (Nat.ne_of_beq_eq_false rfl)

end Workspace

end ExamGeneratorNg
