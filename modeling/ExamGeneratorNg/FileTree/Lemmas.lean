import ExamGeneratorNg.FileTree.Basic
import Mathlib.Data.List.Nodup

/-!
# Laws of trees of files

`get` and `put` are a lens (`get_put`, `put_get`, `put_put`), paths can be followed in parts
(`get_append`, `put_append`), and what is put at a path is not seen at paths that lead elsewhere
(`get_put_of_disjoint`).

`Local path f g` says that an operation does to the tree at a path what another one does to a whole
tree, and nothing else.  The operations of a file system are local at every path (the frame rule),
and so is everything that is made of local operations.
-/

namespace FileTree

variable {Name Content : Type}

/-! ### Following a path -/

@[simp] theorem get_nil (t : FileTree Name Content) : t.get [] = t := rfl

@[simp] theorem get_cons (t : FileTree Name Content) (name : Name) (path : List Name) :
    t.get (name :: path) = (t.child name).get path := rfl

@[simp] theorem child_directory (children : Name → FileTree Name Content) (name : Name) :
    (directory children).child name = children name := rfl

@[simp] theorem hasParent_nil (t : FileTree Name Content) : t.HasParent [] := trivial

@[simp] theorem hasParent_cons (t : FileTree Name Content) (name : Name) (path : List Name) :
    t.HasParent (name :: path) ↔ t.isDirectory ∧ (t.child name).HasParent path := Iff.rfl

theorem isDirectory_iff {t : FileTree Name Content} :
    t.isDirectory ↔ ∃ children, t = directory children := by
  cases t <;> simp [isDirectory]

theorem get_append (t : FileTree Name Content) (path path' : List Name) :
    t.get (path ++ path') = (t.get path).get path' := by
  induction path generalizing t with
  | nil => rfl
  | cons name path ih => exact ih (t.child name)

theorem hasParent_append {t : FileTree Name Content} {path path' : List Name} :
    t.HasParent (path ++ path') ↔ t.HasParent path ∧ (t.get path).HasParent path' := by
  induction path generalizing t with
  | nil => simp
  | cons name path ih => rw [List.cons_append, hasParent_cons, ih, hasParent_cons, and_assoc]; rfl

theorem get_nothing (path : List Name) : (nothing : FileTree Name Content).get path = nothing := by
  induction path with
  | nil => rfl
  | cons name path ih => exact ih

/-- Where there is a file, there is a directory for it. -/
theorem hasParent_of_get {t : FileTree Name Content} {path : List Name} {content : Content}
    (h : t.get path = file content) : t.HasParent path := by
  induction path generalizing t with
  | nil => trivial
  | cons name path ih =>
    cases t with
    | directory children => exact ⟨rfl, ih h⟩
    | _ =>
      have hnothing : nothing = file content := (get_nothing path).symm.trans h
      cases hnothing

/-! ### Replacing a tree -/

variable [DecidableEq Name]

@[simp] theorem put_nil (t u : FileTree Name Content) : t.put [] u = u := by
  cases t <;> rfl

theorem put_directory (children : Name → FileTree Name Content) (name : Name) (path : List Name)
    (u : FileTree Name Content) :
    (directory children).put (name :: path) u
      = directory (Function.update children name ((children name).put path u)) := rfl

/-- Nothing can be put into what is not a directory. -/
theorem put_of_not_isDirectory {t : FileTree Name Content} (h : ¬ t.isDirectory) (name : Name)
    (path : List Name) (u : FileTree Name Content) : t.put (name :: path) u = t := by
  cases t with
  | directory children => exact absurd rfl h
  | nothing => rfl
  | file content => rfl

theorem get_put {t : FileTree Name Content} {path : List Name} (h : t.HasParent path)
    (u : FileTree Name Content) : (t.put path u).get path = u := by
  induction path generalizing t with
  | nil => simp
  | cons name path ih =>
    obtain ⟨hdirectory, h⟩ := h
    obtain ⟨children, rfl⟩ := isDirectory_iff.mp hdirectory
    rw [put_directory, get_cons, child_directory, Function.update_self]
    exact ih h

theorem put_get (t : FileTree Name Content) (path : List Name) : t.put path (t.get path) = t := by
  induction path generalizing t with
  | nil => simp
  | cons name path ih =>
    by_cases h : t.isDirectory
    · obtain ⟨children, rfl⟩ := isDirectory_iff.mp h
      rw [put_directory, get_cons, child_directory, ih, Function.update_eq_self]
    · exact put_of_not_isDirectory h name path _

theorem put_put (t : FileTree Name Content) (path : List Name) (u u' : FileTree Name Content) :
    (t.put path u).put path u' = t.put path u' := by
  induction path generalizing t with
  | nil => simp
  | cons name path ih =>
    by_cases h : t.isDirectory
    · obtain ⟨children, rfl⟩ := isDirectory_iff.mp h
      rw [put_directory, put_directory, put_directory, Function.update_self,
        Function.update_idem, ih]
    · rw [put_of_not_isDirectory h]

theorem put_of_not_hasParent {t : FileTree Name Content} {path : List Name}
    (h : ¬ t.HasParent path) (u : FileTree Name Content) : t.put path u = t := by
  induction path generalizing t with
  | nil => exact absurd trivial h
  | cons name path ih =>
    by_cases hdirectory : t.isDirectory
    · have hrest : ¬ (t.child name).HasParent path := fun hrest => h ⟨hdirectory, hrest⟩
      obtain ⟨children, rfl⟩ := isDirectory_iff.mp hdirectory
      rw [put_directory, ← child_directory children name, ih hrest, child_directory,
        Function.update_eq_self]
    · exact put_of_not_isDirectory hdirectory name path u

theorem put_append (t : FileTree Name Content) (path path' : List Name)
    (u : FileTree Name Content) :
    t.put (path ++ path') u = t.put path ((t.get path).put path' u) := by
  induction path generalizing t with
  | nil => simp
  | cons name path ih =>
    by_cases h : t.isDirectory
    · obtain ⟨children, rfl⟩ := isDirectory_iff.mp h
      rw [List.cons_append, put_directory, put_directory, get_cons, child_directory, ih]
    · rw [List.cons_append, put_of_not_isDirectory h, put_of_not_isDirectory h]

theorem hasParent_put {t : FileTree Name Content} {path : List Name} (u : FileTree Name Content) :
    (t.put path u).HasParent path ↔ t.HasParent path := by
  induction path generalizing t with
  | nil => simp
  | cons name path ih =>
    by_cases h : t.isDirectory
    · obtain ⟨children, rfl⟩ := isDirectory_iff.mp h
      rw [put_directory, hasParent_cons, hasParent_cons, child_directory, child_directory,
        Function.update_self, ih]
      exact Iff.rfl
    · rw [put_of_not_isDirectory h]

/-- The first names in which two paths differ lead to places that have nothing to do with each
other. -/
theorem get_put_of_disjoint {t : FileTree Name Content} {path path' : List Name}
    (h : ¬ path <+: path') (h' : ¬ path' <+: path) (u : FileTree Name Content) :
    (t.put path u).get path' = t.get path' := by
  induction path generalizing t path' with
  | nil => exact absurd (List.nil_prefix) h
  | cons name path ih =>
    cases path' with
    | nil => exact absurd (List.nil_prefix) h'
    | cons name' path' =>
      by_cases hdirectory : t.isDirectory
      · obtain ⟨children, rfl⟩ := isDirectory_iff.mp hdirectory
        rw [put_directory, get_cons, get_cons, child_directory, child_directory]
        by_cases hname : name' = name
        · subst hname
          rw [Function.update_self]
          rw [List.cons_prefix_cons] at h h'
          exact ih (fun hprefix => h ⟨rfl, hprefix⟩) fun hprefix => h' ⟨rfl, hprefix⟩
        · rw [Function.update_of_ne hname]
      · rw [put_of_not_isDirectory hdirectory]

/-- What is put under other names commutes. -/
theorem put_comm {t : FileTree Name Content} {name name' : Name} (h : name ≠ name')
    (path path' : List Name) (u u' : FileTree Name Content) :
    (t.put (name :: path) u).put (name' :: path') u'
      = (t.put (name' :: path') u').put (name :: path) u := by
  by_cases hdirectory : t.isDirectory
  · obtain ⟨children, rfl⟩ := isDirectory_iff.mp hdirectory
    rw [put_directory, put_directory, put_directory, put_directory, Function.update_of_ne h,
      Function.update_of_ne h.symm, Function.update_comm h]
  · rw [put_of_not_isDirectory hdirectory, put_of_not_isDirectory hdirectory,
      put_of_not_isDirectory hdirectory]

/-- What is put under another name is not seen. -/
theorem child_put_of_ne {t : FileTree Name Content} {name name' : Name} (h : name ≠ name')
    (path : List Name) (u : FileTree Name Content) :
    (t.put (name :: path) u).child name' = t.child name' := by
  have hdisjoint : ∀ {a b : Name}, a ≠ b → ∀ l : List Name, ¬ a :: l <+: [b] := by
    intro a b hab l hprefix
    exact hab (List.cons_prefix_cons.mp hprefix).1
  show (t.put (name :: path) u).get [name'] = t.get [name']
  refine get_put_of_disjoint (hdisjoint h path) ?_ u
  intro hprefix
  exact h (List.cons_prefix_cons.mp hprefix).1.symm

/-- What is put at a path is seen at paths through it only, but for the directories on the way. -/
theorem get_put_eq_file_iff {t : FileTree Name Content} {path path' : List Name}
    (h : ¬ path <+: path') (u : FileTree Name Content) {content : Content} :
    (t.put path u).get path' = file content ↔ t.get path' = file content := by
  by_cases h' : path' <+: path
  · obtain ⟨rest, rfl⟩ := h'
    cases rest with
    | nil => exact absurd (by simp) h
    | cons name rest =>
      by_cases hparent : t.HasParent path'
      · rw [put_append, get_put hparent]
        cases t.get path' with
        | directory children => exact ⟨nofun, nofun⟩
        | nothing => exact Iff.rfl
        | file content => exact Iff.rfl
      · rw [put_append, put_of_not_hasParent hparent]
  · rw [get_put_of_disjoint h h']

/-- The directories on the way to a place are not replaced by what is put elsewhere. -/
theorem hasParent_put_elsewhere {t : FileTree Name Content} {path path' : List Name}
    (h : ¬ path <+: path') (u : FileTree Name Content) :
    (t.put path u).HasParent path' ↔ t.HasParent path' := by
  induction path' generalizing t path with
  | nil => simp
  | cons name' path' ih =>
    cases path with
    | nil => exact absurd List.nil_prefix h
    | cons name path =>
      by_cases hdirectory : t.isDirectory
      · obtain ⟨children, rfl⟩ := isDirectory_iff.mp hdirectory
        rw [put_directory, hasParent_cons, hasParent_cons, child_directory, child_directory]
        by_cases hname : name' = name
        · subst hname
          rw [Function.update_self]
          rw [List.cons_prefix_cons] at h
          rw [ih fun hprefix => h ⟨rfl, hprefix⟩]
          exact Iff.rfl
        · rw [Function.update_of_ne hname]
          exact Iff.rfl
      · rw [put_of_not_isDirectory hdirectory]

/-! ### Several names of a directory -/

section

variable {path : List Name} {name name' : Name}

theorem get_put_sibling {t : FileTree Name Content} (h : name ≠ name') (rest rest' : List Name)
    (u : FileTree Name Content) :
    (t.put (path ++ name :: rest) u).get (path ++ name' :: rest')
      = t.get (path ++ name' :: rest') := by
  refine get_put_of_disjoint ?_ ?_ u
  · rw [List.prefix_append_right_inj, List.cons_prefix_cons]
    exact fun hprefix => h hprefix.1
  · rw [List.prefix_append_right_inj, List.cons_prefix_cons]
    exact fun hprefix => h hprefix.1.symm

theorem put_sibling_comm {t : FileTree Name Content} (h : name ≠ name')
    (u u' : FileTree Name Content) :
    (t.put (path ++ [name]) u).put (path ++ [name']) u'
      = (t.put (path ++ [name']) u').put (path ++ [name]) u := by
  by_cases hparent : t.HasParent path
  · simp only [put_append, get_put hparent, put_put]
    rw [put_comm h]
  · have hnot : ∀ n, ¬ t.HasParent (path ++ [n]) := fun n hn => hparent (hasParent_append.mp hn).1
    rw [put_of_not_hasParent (hnot name), put_of_not_hasParent (hnot name'),
      put_of_not_hasParent (hnot name)]

omit [DecidableEq Name] in
/-- A directory has a place for one name exactly if it has one for another. -/
theorem hasParent_sibling {t : FileTree Name Content} :
    t.HasParent (path ++ [name]) ↔ t.HasParent (path ++ [name']) := by
  rw [hasParent_append, hasParent_append]
  exact Iff.rfl

theorem hasParent_put_sibling {t : FileTree Name Content} (u : FileTree Name Content) :
    (t.put (path ++ [name]) u).HasParent (path ++ [name']) ↔ t.HasParent (path ++ [name']) :=
  hasParent_sibling.trans ((hasParent_put u).trans hasParent_sibling)

variable {entries : List (Name × FileTree Name Content)}

theorem putAll_cons (entry : Name × FileTree Name Content) (t : FileTree Name Content) :
    t.putAll path (entry :: entries) = (t.put (path ++ [entry.1]) entry.2).putAll path entries :=
  rfl

theorem putAll_append (entries' : List (Name × FileTree Name Content))
    (t : FileTree Name Content) :
    t.putAll path (entries ++ entries') = (t.putAll path entries).putAll path entries' :=
  List.foldl_append

theorem hasParent_putAll (t : FileTree Name Content) :
    (t.putAll path entries).HasParent (path ++ [name]) ↔ t.HasParent (path ++ [name]) := by
  induction entries generalizing t with
  | nil => exact Iff.rfl
  | cons entry entries ih =>
    rw [putAll_cons, ih]
    exact hasParent_sibling.trans ((hasParent_put entry.2).trans hasParent_sibling)

/-- What is put under names is seen at paths through them only, but for the directories on the
way. -/
theorem get_putAll_eq_file_iff {path' : List Name}
    (h : ∀ name ∈ entries.map Prod.fst, ¬ path ++ [name] <+: path') (t : FileTree Name Content)
    {content : Content} :
    (t.putAll path entries).get path' = file content ↔ t.get path' = file content := by
  induction entries generalizing t with
  | nil => exact Iff.rfl
  | cons entry entries ih =>
    rw [List.map_cons, List.forall_mem_cons] at h
    rw [putAll_cons, ih h.2]
    exact get_put_eq_file_iff h.1 _

/-- Other names keep what they have. -/
theorem get_putAll_of_notMem (h : name ∉ entries.map Prod.fst) (rest : List Name)
    (t : FileTree Name Content) :
    (t.putAll path entries).get (path ++ name :: rest) = t.get (path ++ name :: rest) := by
  induction entries generalizing t with
  | nil => rfl
  | cons entry entries ih =>
    rw [List.map_cons, List.mem_cons, not_or] at h
    rw [putAll_cons, ih h.2, get_put_sibling (Ne.symm h.1)]

/-- A name has what has been put under it last. -/
theorem get_putAll_of_mem {u : FileTree Name Content} (hmem : (name, u) ∈ entries)
    (h : (entries.map Prod.fst).Nodup) {t : FileTree Name Content}
    (hparent : t.HasParent (path ++ [name])) :
    (t.putAll path entries).get (path ++ [name]) = u := by
  induction entries generalizing t with
  | nil => cases hmem
  | cons entry entries ih =>
    rw [List.map_cons, List.nodup_cons] at h
    rw [putAll_cons]
    rcases List.mem_cons.mp hmem with rfl | hmem
    · rw [get_putAll_of_notMem h.1, get_put hparent]
    · refine ih hmem h.2 ?_
      exact hasParent_sibling.trans ((hasParent_put _).trans hasParent_sibling) |>.mpr hparent

/-- What is put last can be put first, if it has another name. -/
theorem putAll_put (h : name ∉ entries.map Prod.fst) (u : FileTree Name Content)
    (t : FileTree Name Content) :
    (t.put (path ++ [name]) u).putAll path entries
      = (t.putAll path entries).put (path ++ [name]) u := by
  induction entries generalizing t with
  | nil => rfl
  | cons entry entries ih =>
    rw [List.map_cons, List.mem_cons, not_or] at h
    rw [putAll_cons, putAll_cons, put_sibling_comm h.1, ih h.2]

end

/-! ### The frame rule -/

theorem createDirectory_append {t : FileTree Name Content} {path : List Name}
    (h : t.HasParent path) (path' : List Name) :
    createDirectory (path ++ path') t
      = (createDirectory path' (t.get path)).map (t.put path) := by
  unfold createDirectory
  simp only [hasParent_append, h, true_and, get_append, put_append]
  split <;> rfl

omit [DecidableEq Name] in
theorem writable_append {t : FileTree Name Content} {path : List Name} (h : t.HasParent path)
    (path' : List Name) : t.Writable (path ++ path') ↔ (t.get path).Writable path' := by
  unfold Writable
  rw [hasParent_append, get_append]
  simp only [h, true_and]

theorem write_append {t : FileTree Name Content} {path : List Name} (h : t.HasParent path)
    (path' : List Name) (content : Content) :
    write (path ++ path') content t
      = (write path' content (t.get path)).map (t.put path) := by
  unfold write
  by_cases hwritable : (t.get path).Writable path'
  · rw [if_pos hwritable, if_pos ((writable_append h path').mpr hwritable), put_append]
    rfl
  · rw [if_neg hwritable, if_neg (mt (writable_append h path').mp hwritable)]
    rfl

/-! ### Local operations -/

section

variable {E : Type}

/-- The operation `f` does to the tree at a path what `g` does to a whole tree. -/
def Local (path : List Name) (f g : FileTree Name Content → Except E (FileTree Name Content)) :
    Prop :=
  ∀ t, t.HasParent path → f t = (g (t.get path)).map (t.put path)

variable {path : List Name} {f f' g g' : FileTree Name Content → Except E (FileTree Name Content)}

theorem local_pure : Local path (E := E) (fun t : FileTree Name Content => pure t) pure := by
  intro t _
  exact congrArg Except.ok (put_get t path).symm

theorem local_error (e : E) :
    Local path (fun _ : FileTree Name Content => .error e) fun _ => .error e :=
  fun _ _ => rfl

/-- One local operation after another. -/
theorem Local.bind (h : Local path f g) (h' : Local path f' g') :
    Local path (fun t => f t >>= f') (fun t => g t >>= g') := by
  intro t ht
  show f t >>= f' = (g (t.get path) >>= g').map (t.put path)
  rw [h t ht]
  cases g (t.get path) with
  | error e => rfl
  | ok u =>
    have hthen := h' (t.put path u) ((hasParent_put u).mpr ht)
    rw [get_put ht] at hthen
    refine hthen.trans (congrArg (Except.map · (g' u)) ?_)
    exact funext fun u' => put_put t path u u'

/-- A loop of local operations. -/
theorem Local.foldlM {ι : Type} {f g : FileTree Name Content → ι →
    Except E (FileTree Name Content)} (xs : List ι)
    (h : ∀ i ∈ xs, Local path (f · i) (g · i)) :
    Local path (fun t => xs.foldlM f t) (fun t => xs.foldlM g t) := by
  induction xs with
  | nil => exact local_pure
  | cons i xs ih =>
    simp only [List.foldlM_cons]
    exact (h i List.mem_cons_self).bind (ih fun j hj => h j (List.mem_cons_of_mem i hj))

/-- A choice that depends on the tree at the path only. -/
theorem Local.ite {c : FileTree Name Content → Prop} {c' : FileTree Name Content → Prop}
    [∀ t, Decidable (c t)] [∀ t, Decidable (c' t)] (hc : ∀ t, c t ↔ c' (t.get path))
    (h : Local path f g) (h' : Local path f' g') :
    Local path (fun t => if c t then f t else f' t) (fun t => if c' t then g t else g' t) := by
  intro t ht
  simp only [hc t]
  split
  · exact h t ht
  · exact h' t ht

end

end FileTree
