import ExamGeneratorNg.Util.Java
import Mathlib.Data.List.Basic

/-!
# `util.ListUtils`
-/

namespace ExamGeneratorNg

variable {T R : Type}

/-- The images of each two neighbours; a list without neighbours is refused. -/
def mapPairs (xs : List T) (mapper : T → T → R) : Except JavaException (List R) := do
  checkArgument (xs.length > 1)
  (List.range (xs.length - 1)).foldlM (fun (result : List R) (i : ℕ) => do
    let a ← listGet xs i
    let b ← listGet xs (i + 1)
    let r := mapper a b
    pure (result ++ [r])) []

/-- `[head] ++ xs ++ [tail]`. -/
def sandwich (head : T) (xs : List T) (tail : T) : List T := [head] ++ (xs ++ [tail])

/-- The loop of `mapPath` from index `i` on, where the list is what `xs1` holds from index `i`. -/
def mapPathFrom (vertexMapper : T → R) (edgeMapper : T → T → R) : ℕ → List T → List R
  | i, v0 :: v1 :: xs1 =>
    (if i > 0 then [vertexMapper v0] else []) ++
      edgeMapper v0 v1 :: mapPathFrom vertexMapper edgeMapper (i + 1) (v1 :: xs1)
  | _, _ => []

/-- The images of the edges and the inner vertices of the path `beginGhostVertex`, `xs`,
`endGhostVertex`, in the order of the path. -/
def mapPath (xs : List T) (vertexMapper : T → R) (edgeMapper : T → T → R)
    (beginGhostVertex endGhostVertex : T) : List R :=
  mapPathFrom vertexMapper edgeMapper 0 (sandwich beginGhostVertex xs endGhostVertex)

section

variable {m : Type → Type} [Monad m] [MonadExcept JavaException m]

/-- The body of the loop of `mapPath`. -/
def mapPathStep (xs1 : List T) (vertexMapper : T → m R) (edgeMapper : T → T → m R)
    (result : List R) (i : ℕ) : m (List R) := do
  let result ←
    if i > 0 then do
      let e0 ← vertexMapper (← ofExcept (listGet xs1 i))
      pure (result ++ [e0])
    else pure result
  let v0 ← ofExcept (listGet xs1 i)
  let v1 ← ofExcept (listGet xs1 (i + 1))
  let e1 ← edgeMapper v0 v1
  pure (result ++ [e1])

/-- `mapPath` with the index of its loop, for mappers that may throw or change something. -/
def mapPathM (xs : List T) (vertexMapper : T → m R) (edgeMapper : T → T → m R)
    (beginGhostVertex endGhostVertex : T) : m (List R) :=
  let xs1 := sandwich beginGhostVertex xs endGhostVertex
  (List.range (xs1.length - 1)).foldlM (mapPathStep xs1 vertexMapper edgeMapper) []

end

/-- The loop of `join`: `sep` goes behind every list but the last. -/
def join (sep : List T) : List (List T) → List T
  | [] => []
  | [xs] => xs
  | xs :: ys :: rest => xs ++ sep ++ join sep (ys :: rest)

end ExamGeneratorNg
