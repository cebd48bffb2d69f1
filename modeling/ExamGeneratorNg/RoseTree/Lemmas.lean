import ExamGeneratorNg.RoseTree.Basic
import Mathlib.Data.List.Nodup

/-!
# Lemmas about rose trees

`mem_outermostPaths`, `pairwise_outermostPaths` and `subtree?_outermostPaths` say what the
outermost subtrees with a property are: the subtrees at the outermost paths, each once, in the
order of the tree.  `subtree?_setChildren_of_not_below` and `subtree?_setChildren_of_selected` say
what replacing children changes, and `updateChildren_setChildren` that replacing children at
different labels one after the other is replacing them all at once.
-/

namespace RoseTree

variable {α β : Type*}

/-! ### Equations for lists of trees -/

theorem outermostList_eq (P : RoseTree α → Bool) (ts : List (RoseTree α)) :
    outermostList P ts = ts.flatMap (outermost P) := by
  induction ts with
  | nil => rfl
  | cons t ts ih => rw [outermostList, ih, List.flatMap_cons]

theorem outermost_node (P : RoseTree α → Bool) (a : α) (ts : List (RoseTree α)) :
    (node a ts).outermost P = if P (node a ts) then [node a ts] else ts.flatMap (outermost P) := by
  rw [outermost, outermostList_eq]

theorem updateChildrenList_eq (p : α → Bool) (g : List (RoseTree α) → List (RoseTree α))
    (ts : List (RoseTree α)) : updateChildrenList p g ts = ts.map (updateChildren p g) := by
  induction ts with
  | nil => rfl
  | cons t ts ih => rw [updateChildrenList, ih, List.map_cons]

theorem updateChildren_node (p : α → Bool) (g : List (RoseTree α) → List (RoseTree α)) (a : α)
    (ts : List (RoseTree α)) : (node a ts).updateChildren p g
      = node a (if p a then g ts else ts.map (updateChildren p g)) := by
  rw [updateChildren, updateChildrenList_eq]
  split <;> rfl

theorem setChildrenList_eq (f : α → Option (List (RoseTree α))) (ts : List (RoseTree α)) :
    setChildrenList f ts = ts.map (setChildren f) := by
  induction ts with
  | nil => rfl
  | cons t ts ih => rw [setChildrenList, ih, List.map_cons]

theorem setChildren_node (f : α → Option (List (RoseTree α))) (a : α) (ts : List (RoseTree α)) :
    (node a ts).setChildren f = node a ((f a).getD (ts.map (setChildren f))) := by
  rw [setChildren, setChildrenList_eq]

@[simp] theorem label_setChildren (f : α → Option (List (RoseTree α))) (t : RoseTree α) :
    (t.setChildren f).label = t.label := by
  obtain ⟨a, ts⟩ := t
  rw [setChildren_node]
  rfl

/-! ### Subtrees -/

theorem mem_subtrees_self (t : RoseTree α) : t ∈ t.subtrees := by
  obtain ⟨a, ts⟩ := t
  rw [subtrees_node]
  exact List.mem_cons_self

theorem mem_subtrees_of_mem_children {s t u : RoseTree α} (hu : u ∈ t.children)
    (hs : s ∈ u.subtrees) : s ∈ t.subtrees := by
  obtain ⟨a, ts⟩ := t
  rw [subtrees_node]
  exact List.mem_cons_of_mem _ (List.mem_flatMap.mpr ⟨u, hu, hs⟩)

theorem mem_subtrees_of_subtree? {s t : RoseTree α} {p : Path} (h : t.subtree? p = some s) :
    s ∈ t.subtrees := by
  induction p generalizing t with
  | nil =>
    obtain rfl : t = s := by simpa using h
    exact mem_subtrees_self t
  | cons i p ih =>
    rw [subtree?_cons, Option.bind_eq_some_iff] at h
    obtain ⟨u, hu, h⟩ := h
    exact mem_subtrees_of_mem_children (List.mem_of_getElem? hu) (ih h)

/-! ### Outermost subtrees -/

theorem outermost_sublist_subtrees (P : RoseTree α → Bool) (t : RoseTree α) :
    (t.outermost P).Sublist t.subtrees := by
  induction t using induction with
  | step a ts ih =>
    rw [outermost_node, subtrees_node]
    by_cases hP : P (node a ts)
    · rw [if_pos hP]
      exact List.singleton_sublist.mpr List.mem_cons_self
    · rw [if_neg hP]
      apply List.Sublist.cons
      clear hP
      induction ts with
      | nil => exact List.Sublist.refl _
      | cons t ts ihts =>
        rw [List.flatMap_cons, List.flatMap_cons]
        exact (ih t List.mem_cons_self).append
          (ihts fun s hs => ih s (List.mem_cons_of_mem _ hs))

theorem of_mem_outermost {P : RoseTree α → Bool} {s t : RoseTree α} (h : s ∈ t.outermost P) :
    P s = true := by
  induction t using induction with
  | step a ts ih =>
    rw [outermost_node] at h
    split at h
    · next hP =>
      obtain rfl := List.mem_singleton.mp h
      exact hP
    · obtain ⟨u, hu, h⟩ := List.mem_flatMap.mp h
      exact ih u hu h

theorem mem_outermostPathsFrom {P : RoseTree α → Bool} {ts : List (RoseTree α)} {i : ℕ}
    {p : Path} : p ∈ outermostPathsFrom P i ts ↔
      ∃ j t q, ts[j]? = some t ∧ q ∈ t.outermostPaths P ∧ (i + j) :: q = p := by
  induction ts generalizing i with
  | nil => simp [outermostPathsFrom]
  | cons t ts ih =>
    rw [outermostPathsFrom, List.mem_append, List.mem_map, ih]
    constructor
    · rintro (⟨q, hq, rfl⟩ | ⟨j, u, q, hu, hq, rfl⟩)
      · exact ⟨0, t, q, rfl, hq, rfl⟩
      · exact ⟨j + 1, u, q, hu, hq, by rw [← Nat.add_assoc, Nat.add_right_comm]⟩
    · rintro ⟨j, u, q, hu, hq, rfl⟩
      cases j with
      | zero =>
        obtain rfl : t = u := by simpa using hu
        exact Or.inl ⟨q, hq, rfl⟩
      | succ j =>
        exact Or.inr ⟨j, u, q, by simpa using hu, hq, by rw [← Nat.add_assoc, Nat.add_right_comm]⟩

/-- A node below a node without the property is outermost if it is so below the child. -/
theorem isOutermost_cons {P : RoseTree α → Bool} {a : α} {ts : List (RoseTree α)} {i : ℕ}
    {q : Path} (hP : P (node a ts) = false) :
    (node a ts).IsOutermost P (i :: q) ↔ ∃ t, ts[i]? = some t ∧ t.IsOutermost P q := by
  constructor
  · rintro ⟨⟨s, hs, hsP⟩, hq⟩
    rw [subtree?_cons, Option.bind_eq_some_iff] at hs
    obtain ⟨t, ht, hs⟩ := hs
    refine ⟨t, ht, ⟨s, hs, hsP⟩, fun r hr hne u hu => ?_⟩
    apply hq (i :: r) ((List.prefix_cons_inj i).mpr hr) (by simpa using hne)
    rw [subtree?_cons, children_node]
    simp only [children_node] at ht
    rw [ht]
    exact hu
  · rintro ⟨t, ht, ⟨s, hs, hsP⟩, hq⟩
    refine ⟨⟨s, ?_, hsP⟩, fun r hr hne u hu => ?_⟩
    · rw [subtree?_cons, children_node, ht]
      exact hs
    · cases r with
      | nil =>
        obtain rfl : node a ts = u := by simpa using hu
        exact hP
      | cons j r =>
        obtain ⟨rfl, hrq⟩ := List.cons_prefix_cons.mp hr
        rw [subtree?_cons, children_node, ht] at hu
        exact hq r hrq (by simpa using hne) u hu

/-- **The outermost paths are the paths to outermost subtrees.** -/
theorem mem_outermostPaths {P : RoseTree α → Bool} {t : RoseTree α} {p : Path} :
    p ∈ t.outermostPaths P ↔ t.IsOutermost P p := by
  induction t using induction generalizing p with
  | step a ts ih =>
    rw [outermostPaths]
    by_cases hP : P (node a ts)
    · rw [if_pos hP, List.mem_singleton]
      constructor
      · rintro rfl
        exact ⟨⟨_, rfl, hP⟩, fun q hq hne => absurd (List.prefix_nil.mp hq) hne⟩
      · -- below a node with the property nothing is outermost
        rintro ⟨-, hq⟩
        by_contra hne
        have := hq [] List.nil_prefix (Ne.symm hne) _ rfl
        rw [hP] at this
        exact absurd this (by simp)
    · rw [if_neg hP, mem_outermostPathsFrom]
      rw [Bool.not_eq_true] at hP
      constructor
      · rintro ⟨j, t, q, ht, hq, rfl⟩
        rw [Nat.zero_add, isOutermost_cons hP]
        exact ⟨t, ht, (ih t (List.mem_of_getElem? ht)).mp hq⟩
      · intro h
        cases p with
        | nil =>
          obtain ⟨s, hs, hsP⟩ := h.1
          obtain rfl : node a ts = s := by simpa using hs
          rw [hP] at hsP
          exact absurd hsP (by simp)
        | cons i q =>
          obtain ⟨t, ht, hq⟩ := (isOutermost_cons hP).mp h
          exact ⟨i, t, q, ht, (ih t (List.mem_of_getElem? ht)).mpr hq, by rw [Nat.zero_add]⟩

/-- No outermost subtree lies inside another. -/
theorem eq_of_mem_outermostPaths {P : RoseTree α → Bool} {t : RoseTree α} {p q : Path}
    (hp : p ∈ t.outermostPaths P) (hq : q ∈ t.outermostPaths P) (h : p <+: q) : p = q := by
  by_contra hne
  obtain ⟨⟨s, hs, hsP⟩, -⟩ := mem_outermostPaths.mp hp
  have hnotP := (mem_outermostPaths.mp hq).2 p h hne s hs
  rw [hsP] at hnotP
  exact absurd hnotP (by simp)

theorem pairwise_outermostPathsFrom {P : RoseTree α → Bool} (ts : List (RoseTree α)) (i : ℕ)
    (ih : ∀ t ∈ ts, (t.outermostPaths P).Pairwise (· < ·)) :
    (outermostPathsFrom P i ts).Pairwise (· < ·) := by
  induction ts generalizing i with
  | nil => exact List.Pairwise.nil
  | cons t ts ihts =>
    rw [outermostPathsFrom, List.pairwise_append]
    refine ⟨?_, ihts _ fun s hs => ih s (List.mem_cons_of_mem _ hs), ?_⟩
    · rw [List.pairwise_map]
      exact (ih t List.mem_cons_self).imp fun h => List.cons_lt_cons_iff.mpr (Or.inr ⟨rfl, h⟩)
    · -- the first index decides
      intro p hp q hq
      obtain ⟨p, -, rfl⟩ := List.mem_map.mp hp
      obtain ⟨j, u, q, -, -, rfl⟩ := mem_outermostPathsFrom.mp hq
      exact List.cons_lt_cons_iff.mpr (Or.inl (by omega))

/-- **The outermost paths stand in the order of the tree**, and so without duplicates. -/
theorem pairwise_outermostPaths (P : RoseTree α → Bool) (t : RoseTree α) :
    (t.outermostPaths P).Pairwise (· < ·) := by
  induction t using induction with
  | step a ts ih =>
    rw [outermostPaths]
    split
    · exact List.pairwise_singleton _ _
    · exact pairwise_outermostPathsFrom ts 0 ih

theorem map_subtree?_outermostPathsFrom {P : RoseTree α → Bool} (t : RoseTree α)
    (before ts : List (RoseTree α)) (ht : t.children = before ++ ts)
    (ih : ∀ u ∈ ts, (u.outermostPaths P).map u.subtree? = (u.outermost P).map some) :
    (outermostPathsFrom P before.length ts).map t.subtree?
      = (ts.flatMap (outermost P)).map some := by
  induction ts generalizing before with
  | nil => rfl
  | cons u ts ihts =>
    -- `u` is the child behind `before`
    have hsub : ∀ q, t.subtree? (before.length :: q) = u.subtree? q := by
      intro q
      rw [subtree?_cons, ht, List.getElem?_append_right (Nat.le_refl _)]
      simp
    have hrest := ihts (before ++ [u]) (by rw [ht]; simp)
      fun s hs => ih s (List.mem_cons_of_mem _ hs)
    rw [List.length_append] at hrest
    rw [outermostPathsFrom, List.map_append, List.map_map, List.flatMap_cons, List.map_append,
      ← ih u List.mem_cons_self, ← hrest]
    congr 1
    exact List.map_congr_left fun q _ => hsub q

/-- **The subtrees at the outermost paths are the outermost subtrees**, in the same order. -/
theorem map_subtree?_outermostPaths (P : RoseTree α → Bool) (t : RoseTree α) :
    (t.outermostPaths P).map t.subtree? = (t.outermost P).map some := by
  induction t using induction with
  | step a ts ih =>
    rw [outermostPaths, outermost_node]
    split
    · rfl
    · exact map_subtree?_outermostPathsFrom (node a ts) [] ts rfl ih

/-! ### Nodes with an identity -/

@[simp] theorem labels_node (a : α) (ts : List (RoseTree α)) :
    (node a ts).labels = a :: ts.flatMap labels := by
  rw [labels, subtrees_node, List.map_cons, label_node, List.map_flatMap]
  rfl

theorem label_mem_labels {s t : RoseTree α} {p : Path} (h : t.subtree? p = some s) :
    s.label ∈ t.labels := List.mem_map_of_mem (mem_subtrees_of_subtree? h)

/-- Where the identities `g` of the nodes are distinct, a node is only at one path. -/
theorem eq_of_subtree?_of_nodup {g : α → Option β} {s t u : RoseTree α} {p q : Path} {b : β}
    (hnodup : (t.labels.filterMap g).Nodup) (hs : t.subtree? p = some s)
    (hu : t.subtree? q = some u) (hgs : g s.label = some b) (hgu : g u.label = some b) :
    p = q := by
  -- a node with the identity `b` puts `b` among the identities of every tree it is in
  have hmem : ∀ {t v : RoseTree α} {r : Path}, t.subtree? r = some v → g v.label = some b →
      b ∈ t.labels.filterMap g := fun hv hgv =>
    List.mem_filterMap.mpr ⟨_, label_mem_labels hv, hgv⟩
  induction p generalizing t q with
  | nil =>
    cases q with
    | nil => rfl
    | cons j q =>
      exfalso
      obtain rfl : t = s := by simpa using hs
      obtain ⟨a, ts⟩ := t
      rw [subtree?_cons, Option.bind_eq_some_iff] at hu
      obtain ⟨v, hv, hu⟩ := hu
      rw [label_node] at hgs
      rw [labels_node, List.filterMap_cons_some hgs, List.nodup_cons,
        List.filterMap_flatMap] at hnodup
      exact hnodup.1 (List.mem_flatMap.mpr ⟨v, List.mem_of_getElem? hv, hmem hu hgu⟩)
  | cons i p ih =>
    obtain ⟨a, ts⟩ := t
    have hts : (ts.flatMap fun t => t.labels.filterMap g).Nodup := by
      rw [← List.filterMap_flatMap]
      refine hnodup.sublist ?_
      rw [labels_node]
      exact (List.sublist_cons_self _ _).filterMap g
    rw [subtree?_cons, Option.bind_eq_some_iff] at hs
    obtain ⟨v, hv, hs⟩ := hs
    cases q with
    | nil =>
      exfalso
      obtain rfl : node a ts = u := by simpa using hu
      rw [label_node] at hgu
      rw [labels_node, List.filterMap_cons_some hgu, List.nodup_cons,
        List.filterMap_flatMap] at hnodup
      exact hnodup.1 (List.mem_flatMap.mpr ⟨v, List.mem_of_getElem? hv, hmem hs hgs⟩)
    | cons j q =>
      rw [subtree?_cons, Option.bind_eq_some_iff] at hu
      obtain ⟨w, hw, hu⟩ := hu
      rw [List.nodup_flatMap] at hts
      have hij : i = j := by
        by_contra hne
        obtain ⟨hi, rfl⟩ := List.getElem?_eq_some_iff.mp hv
        obtain ⟨hj, rfl⟩ := List.getElem?_eq_some_iff.mp hw
        have hpair := List.pairwise_iff_getElem.mp hts.2
        rcases Nat.lt_or_gt_of_ne hne with hlt | hlt
        · exact hpair i j hi hj hlt (hmem hs hgs) (hmem hu hgu)
        · exact hpair j i hj hi hlt (hmem hu hgu) (hmem hs hgs)
      subst hij
      obtain rfl : v = w := Option.some.inj (hv.symm.trans hw)
      rw [ih (hts.1 v (List.mem_of_getElem? hv)) hs hu]

/-! ### Replacing children -/

/-- Away from the selected nodes the tree keeps its shape and its labels. -/
theorem subtree?_setChildren_of_not_below {f : α → Option (List (RoseTree α))} {t : RoseTree α}
    {p : Path} (h : ∀ q, q <+: p → q ≠ p → ∀ u, t.subtree? q = some u → f u.label = none) :
    (t.setChildren f).subtree? p = (t.subtree? p).map (setChildren f) := by
  induction p generalizing t with
  | nil => rfl
  | cons i p ih =>
    obtain ⟨a, ts⟩ := t
    have ha : f a = none := h [] List.nil_prefix (by simp) _ rfl
    rw [subtree?_cons, subtree?_cons, setChildren_node, ha, Option.getD_none, children_node,
      children_node, List.getElem?_map]
    cases hu : ts[i]? with
    | none => rfl
    | some u =>
      show (u.setChildren f).subtree? p = (u.subtree? p).map (setChildren f)
      apply ih
      intro q hq hne v hv
      apply h (i :: q) ((List.prefix_cons_inj i).mpr hq) (by simpa using hne)
      rw [subtree?_cons, children_node, hu]
      exact hv

/-- A selected node below no other selected node gets its new children. -/
theorem subtree?_setChildren_of_selected {f : α → Option (List (RoseTree α))} {s t : RoseTree α}
    {p : Path} {new : List (RoseTree α)} (hs : t.subtree? p = some s) (hf : f s.label = some new)
    (h : ∀ q, q <+: p → q ≠ p → ∀ u, t.subtree? q = some u → f u.label = none) :
    (t.setChildren f).subtree? p = some (node s.label new) := by
  rw [subtree?_setChildren_of_not_below h, hs]
  obtain ⟨a, ts⟩ := s
  rw [label_node] at hf
  rw [Option.map_some, setChildren_node, hf]
  rfl

@[simp] theorem setChildren_none (t : RoseTree α) : t.setChildren (fun _ => none) = t := by
  induction t using induction with
  | step a ts ih =>
    rw [setChildren_node, Option.getD_none, List.map_congr_left ih, List.map_id']

theorem updateChildren_updateChildren (p : α → Bool)
    (g₁ g₂ : List (RoseTree α) → List (RoseTree α)) (t : RoseTree α) :
    (t.updateChildren p g₁).updateChildren p g₂ = t.updateChildren p (g₂ ∘ g₁) := by
  induction t using induction with
  | step a ts ih =>
    rw [updateChildren_node, updateChildren_node, updateChildren_node]
    split
    · rfl
    · rw [List.map_map]
      exact congrArg (node a) (List.map_congr_left ih)

theorem updateChildren_eq_self {p : α → Bool} {t : RoseTree α} (h : ∀ b ∈ t.labels, p b = false)
    (g : List (RoseTree α) → List (RoseTree α)) : t.updateChildren p g = t := by
  induction t using induction with
  | step a ts ih =>
    rw [labels_node] at h
    rw [updateChildren_node, h a List.mem_cons_self, if_neg (by simp)]
    have hts : ∀ t ∈ ts, t.updateChildren p g = t := fun t ht =>
      ih t ht fun b hb => h b (List.mem_cons_of_mem _ (List.mem_flatMap.mpr ⟨t, ht, hb⟩))
    rw [List.map_congr_left hts, List.map_id']

/-- Replacing the children at further labels, after replacing those `f` selects, is replacing
them all at once: it does not matter how the selected nodes lie in the tree, only that the new
children have none of the further labels. -/
theorem updateChildren_setChildren {p : α → Bool} {f : α → Option (List (RoseTree α))}
    (hnew : ∀ a new, f a = some new → ∀ u ∈ new, ∀ b ∈ u.labels, p b = false)
    (new : List (RoseTree α)) (t : RoseTree α) :
    (t.setChildren f).updateChildren p (fun _ => new)
      = t.setChildren fun a => if p a then some new else f a := by
  induction t using induction with
  | step a ts ih =>
    rw [setChildren_node, setChildren_node, updateChildren_node]
    by_cases hp : p a
    · rw [if_pos hp, if_pos hp]
      rfl
    · rw [if_neg hp, if_neg hp]
      cases hfa : f a with
      | none =>
        rw [Option.getD_none, Option.getD_none, List.map_map]
        exact congrArg (node a) (List.map_congr_left ih)
      | some newa =>
        rw [Option.getD_some, Option.getD_some]
        congr 1
        have hself : ∀ u ∈ newa, u.updateChildren p (fun _ => new) = u := fun u hu =>
          updateChildren_eq_self (hnew a newa hfa u hu) _
        rw [List.map_congr_left hself, List.map_id']

end RoseTree
