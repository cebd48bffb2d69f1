import Mathlib.Data.List.Basic
import Mathlib.Data.List.Defs

/-!
# Neighbours in a list

`foldM` does something for each two neighbours of a list, from left to right.

* `foldlM_range`: a loop over the indices of a list that looks at neighbours only is `foldM`.
* `foldM_pure`: a loop that collects what it finds for each two neighbours.
-/

namespace Neighbours

variable {α β : Type} {m : Type → Type} [Monad m]

/-- `f` for each two neighbours of a list, from left to right; `i` is the index of the first of
them. -/
def foldM (f : ℕ → α → α → β → m β) : ℕ → List α → β → m β
  | i, x :: y :: xs, b => f i x y b >>= foldM f (i + 1) (y :: xs)
  | _, _, b => pure b

/-- A loop over the indices of a list, of which each but the last is looked at with the next. -/
theorem foldlM_range {f : ℕ → α → α → β → m β} {body : β → ℕ → m β} (xs : List α)
    (hbody : ∀ before x y after, xs = before ++ x :: y :: after →
      ∀ b, body b before.length = f before.length x y b) (b : β) :
    (List.range (xs.length - 1)).foldlM body b = foldM f 0 xs b := by
  -- by induction on what is still to be passed
  have hloop : ∀ (todo passed : List α) (b : β), xs = passed ++ todo →
      (List.range' passed.length (todo.length - 1)).foldlM body b
        = foldM f passed.length todo b := by
    intro todo
    induction todo with
    | nil => exact fun _ _ _ => rfl
    | cons x todo ih =>
      intro passed b hxs
      cases todo with
      | nil => rfl
      | cons y todo =>
        show (List.range' passed.length (todo.length + 1)).foldlM body b = _
        rw [List.range'_succ, List.foldlM_cons, hbody passed x y todo hxs, foldM]
        congr 1
        funext b'
        have hrest := ih (passed ++ [x]) b' (by rw [hxs, List.append_assoc]; rfl)
        rwa [List.length_append, List.length_singleton] at hrest
  rw [List.range_eq_range']
  exact hloop xs [] b rfl

/-- A loop that puts something behind the result for each two neighbours. -/
theorem foldM_pure [LawfulMonad m] {γ : Type} (g : α → α → γ) (i : ℕ) (xs : List α)
    (result : List γ) :
    foldM (m := m) (fun _ x y result => pure (result ++ [g x y])) i xs result
      = pure (result ++ xs.consecutivePairs.map (Function.uncurry g)) := by
  induction xs generalizing i result with
  | nil => simp [foldM, List.consecutivePairs]
  | cons x xs ih =>
    cases xs with
    | nil => simp [foldM, List.consecutivePairs]
    | cons y xs => simp [foldM, List.consecutivePairs, ih]

end Neighbours
