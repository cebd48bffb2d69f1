import ExamGeneratorNg.Neighbours.Basic
import ExamGeneratorNg.Stateful.Basic
import ExamGeneratorNg.Util.ListUtils

/-!
# Correctness of `mapPairs` and `mapPath`

`mapPath_nil` and `mapPath_cons` are the recursion that `mapPath` computes: the images of edges and
vertices in turn, where the ghost vertices only belong to edges.  `mapPathM_eq`: the loop that
`mapPath` stands for calls its mappers in just that order, for mappers with any effects.
-/

namespace ExamGeneratorNg

open Neighbours Stateful

variable {T R S : Type}

/-! ### Neighbours -/

theorem listGet_append_cons_cons (before : List T) (x y : T) (after : List T) :
    listGet (before ++ x :: y :: after) (before.length + 1) = .ok y := by
  have hget := listGet_append_cons (before ++ [x]) y after
  rwa [List.append_assoc, List.length_append, List.length_singleton, Int.natCast_add] at hget

/-- The images of the edges of a path. -/
def edges (edgeMapper : T → T → R) (path : List T) : List R :=
  path.consecutivePairs.map (Function.uncurry edgeMapper)

/-- `mapPairs` maps the edges of a path that has one. -/
theorem mapPairs_eq {xs : List T} (hxs : 1 < xs.length) (mapper : T → T → R) :
    mapPairs xs mapper = .ok (edges mapper xs) := by
  unfold mapPairs
  rw [checkArgument_bind, if_pos (decide_eq_true hxs)]
  refine (foldlM_range xs (f := fun _ x y result => pure (result ++ [mapper x y])) ?_ []).trans
    (foldM_pure (m := Except JavaException) mapper 0 xs [])
  rintro before x y after rfl result
  rw [listGet_append_cons, listGet_append_cons_cons]
  rfl

/-! ### The path -/

section

variable (vertexMapper : T → R) (edgeMapper : T → T → R)

/-- But for the vertex in front, the loop does the same from every place on. -/
theorem mapPathFrom_succ (i : ℕ) (v0 v1 : T) (xs1 : List T) :
    mapPathFrom vertexMapper edgeMapper (i + 1) (v0 :: v1 :: xs1)
      = vertexMapper v0 :: mapPathFrom vertexMapper edgeMapper 0 (v0 :: v1 :: xs1) := by
  induction xs1 generalizing i v0 v1 with
  | nil => rfl
  | cons v2 xs1 ih =>
    have hstep : ∀ i, mapPathFrom vertexMapper edgeMapper i (v0 :: v1 :: v2 :: xs1)
        = (if i > 0 then [vertexMapper v0] else []) ++
          edgeMapper v0 v1 :: mapPathFrom vertexMapper edgeMapper (i + 1) (v1 :: v2 :: xs1) :=
      fun _ => rfl
    rw [hstep, hstep, ih, ih]
    rfl

theorem mapPath_nil (beginGhostVertex endGhostVertex : T) :
    mapPath [] vertexMapper edgeMapper beginGhostVertex endGhostVertex
      = [edgeMapper beginGhostVertex endGhostVertex] :=
  rfl

/-- The way to the first vertex, the vertex, and the path from there. -/
theorem mapPath_cons (x : T) (xs : List T) (beginGhostVertex endGhostVertex : T) :
    mapPath (x :: xs) vertexMapper edgeMapper beginGhostVertex endGhostVertex
      = edgeMapper beginGhostVertex x :: vertexMapper x ::
        mapPath xs vertexMapper edgeMapper x endGhostVertex := by
  cases xs with
  | nil => rfl
  | cons y xs =>
    show _ :: mapPathFrom vertexMapper edgeMapper 1 (x :: y :: (xs ++ [endGhostVertex])) = _
    rw [mapPathFrom_succ]
    rfl

theorem edges_sandwich_cons (head x : T) (xs : List T) (tail : T) :
    edges edgeMapper (sandwich head (x :: xs) tail)
      = edgeMapper head x :: edges edgeMapper (sandwich x xs tail) :=
  rfl

theorem length_mapPath (xs : List T) (beginGhostVertex endGhostVertex : T) :
    (mapPath xs vertexMapper edgeMapper beginGhostVertex endGhostVertex).length
      = 2 * xs.length + 1 := by
  induction xs generalizing beginGhostVertex with
  | nil => rfl
  | cons x xs ih =>
    rw [mapPath_cons, List.length_cons, List.length_cons, ih, List.length_cons]
    omega

/-- Edges and vertices stand in turn. -/
theorem getElem?_mapPath (xs : List T) (beginGhostVertex endGhostVertex : T) (i : ℕ) :
    (mapPath xs vertexMapper edgeMapper beginGhostVertex endGhostVertex)[2 * i]?
      = (edges edgeMapper (sandwich beginGhostVertex xs endGhostVertex))[i]? ∧
    (mapPath xs vertexMapper edgeMapper beginGhostVertex endGhostVertex)[2 * i + 1]?
      = (xs.map vertexMapper)[i]? := by
  induction xs generalizing beginGhostVertex i with
  | nil =>
    cases i with
    | zero => exact ⟨rfl, rfl⟩
    | succ i => exact ⟨rfl, rfl⟩
  | cons x xs ih =>
    rw [mapPath_cons, edges_sandwich_cons, List.map_cons]
    cases i with
    | zero => exact ⟨rfl, rfl⟩
    | succ i => exact ih x i

/-- What is done to the results may be done by the mappers. -/
theorem map_mapPath (f : R → S) (xs : List T) (beginGhostVertex endGhostVertex : T) :
    (mapPath xs vertexMapper edgeMapper beginGhostVertex endGhostVertex).map f
      = mapPath xs (fun v => f (vertexMapper v)) (fun v0 v1 => f (edgeMapper v0 v1))
        beginGhostVertex endGhostVertex := by
  induction xs generalizing beginGhostVertex with
  | nil => rfl
  | cons x xs ih => rw [mapPath_cons, mapPath_cons, List.map_cons, List.map_cons, ih]

end

/-! ### The loop -/

section

variable {m : Type → Type} [Monad m] [LawfulMonad m]

/-- What the body of the loop does with the neighbours it looks at. -/
def mapPathBody (vertexMapper : T → m R) (edgeMapper : T → T → m R) (i : ℕ) (v0 v1 : T)
    (result : List R) : m (List R) := do
  let vertices ← if i > 0 then (fun e0 => [e0]) <$> vertexMapper v0 else pure []
  let e1 ← edgeMapper v0 v1
  pure (result ++ (vertices ++ [e1]))

/-- The mappers are called in the order of `mapPathFrom`. -/
theorem foldM_mapPathBody (vertexMapper : T → m R) (edgeMapper : T → T → m R) (i : ℕ)
    (xs1 : List T) (result : List R) :
    foldM (mapPathBody vertexMapper edgeMapper) i xs1 result
      = (fun rest => result ++ rest) <$> (mapPathFrom vertexMapper edgeMapper i xs1).mapM id := by
  fun_induction mapPathFrom vertexMapper edgeMapper i xs1 generalizing result with
  | case1 i v0 v1 xs1 ih =>
    rw [foldM, funext ih, mapPathBody, List.mapM_append, List.mapM_cons]
    split_ifs
    · simp
    · simp
  | case2 => simp [foldM]

/-- **The loop of `mapPath` calls its mappers in the order of what `mapPath` returns**, and every
`get` of the loop is in range. -/
theorem mapPathM_eq [MonadExcept JavaException m] (xs : List T) (vertexMapper : T → m R)
    (edgeMapper : T → T → m R) (beginGhostVertex endGhostVertex : T) :
    mapPathM xs vertexMapper edgeMapper beginGhostVertex endGhostVertex
      = (mapPath xs vertexMapper edgeMapper beginGhostVertex endGhostVertex).mapM id := by
  unfold mapPathM
  rw [foldlM_range (f := mapPathBody vertexMapper edgeMapper), foldM_mapPathBody]
  · simp [mapPath]
  rintro before v0 v1 after hxs1 result
  rw [mapPathStep, hxs1, listGet_append_cons, listGet_append_cons_cons, mapPathBody]
  simp only [MonadExcept.ofExcept, pure_bind]
  split_ifs <;> simp

end

/-! ### The calls of the mappers -/

/-- A call of one of the mappers. -/
inductive PathCall (T : Type)
  | vertex (v : T)
  | edge (v0 v1 : T)
deriving DecidableEq, Repr

/-- The vertex the vertex mapper is called for. -/
def PathCall.vertex? : PathCall T → Option T
  | vertex v => some v
  | edge _ _ => none

/-- A mapper that writes down that it is called, and returns `r`. -/
def calling (call : PathCall T) (r : R) : Code (List (PathCall T)) JavaException R := do
  modify (· ++ [call])
  pure r

/-- Mappers that are called one after another. -/
theorem run_mapM_calling (entries : List (PathCall T × R)) (calls : List (PathCall T)) :
    ((entries.map fun entry => calling entry.1 entry.2).mapM id).run.run calls
      = (.ok (entries.map Prod.snd), calls ++ entries.map Prod.fst) := by
  induction entries generalizing calls with
  | nil =>
    show (_, _) = (_, calls ++ [])
    rw [List.append_nil]
    rfl
  | cons entry entries ih =>
    have hcall : (id (calling entry.1 entry.2)).run.run calls
        = (.ok entry.2, calls ++ [entry.1]) := rfl
    rw [List.map_cons, List.mapM_cons, run_bind, hcall]
    dsimp only
    rw [run_bind, ih, List.append_assoc]
    rfl

/-- The calls of the mappers are what `mapPath` returns for mappers that return their calls. -/
theorem run_mapPathM_calling (xs : List T) (vertexMapper : T → R) (edgeMapper : T → T → R)
    (beginGhostVertex endGhostVertex : T) :
    (mapPathM xs (fun v => calling (.vertex v) (vertexMapper v))
        (fun v0 v1 => calling (.edge v0 v1) (edgeMapper v0 v1))
        beginGhostVertex endGhostVertex).run.run []
      = (.ok (mapPath xs vertexMapper edgeMapper beginGhostVertex endGhostVertex),
        mapPath xs .vertex .edge beginGhostVertex endGhostVertex) := by
  have hentries := map_mapPath (fun v => (.vertex v, vertexMapper v))
    (fun v0 v1 => (.edge v0 v1, edgeMapper v0 v1))
    (fun entry : PathCall T × R => calling entry.1 entry.2) xs beginGhostVertex endGhostVertex
  rw [mapPathM_eq, ← hentries, run_mapM_calling, map_mapPath, map_mapPath]
  rfl

/-- The vertex mapper is called for the vertices, in their order, and not for the ghosts. -/
theorem filterMap_vertex?_mapPath (xs : List T) (beginGhostVertex endGhostVertex : T) :
    (mapPath xs PathCall.vertex PathCall.edge beginGhostVertex endGhostVertex).filterMap
      PathCall.vertex? = xs := by
  induction xs generalizing beginGhostVertex with
  | nil => rfl
  | cons x xs ih =>
    rw [mapPath_cons]
    exact congrArg (List.cons x) (ih x)

/-- **`mapPath` interleaves the edges and the vertices of the path with its ghosts**: it returns one
element more than twice as many as there are vertices; at the even places stand the images of the
neighbours, as `mapPairs` returns them, and at the odd places the images of the vertices.  The loop
calls the vertex mapper for the vertices, each once and in their order, and for no ghost. -/
theorem mapPath_interleaves (xs : List T) (vertexMapper : T → R) (edgeMapper : T → T → R)
    (beginGhostVertex endGhostVertex : T) :
    (mapPath xs vertexMapper edgeMapper beginGhostVertex endGhostVertex).length
      = 2 * xs.length + 1 ∧
    (∃ images, mapPairs (sandwich beginGhostVertex xs endGhostVertex) edgeMapper = .ok images ∧
      ∀ i, (mapPath xs vertexMapper edgeMapper beginGhostVertex endGhostVertex)[2 * i]?
        = images[i]?) ∧
    (∀ i, (mapPath xs vertexMapper edgeMapper beginGhostVertex endGhostVertex)[2 * i + 1]?
      = (xs.map vertexMapper)[i]?) ∧
    ∃ calls, (mapPathM xs (fun v => calling (.vertex v) (vertexMapper v))
          (fun v0 v1 => calling (.edge v0 v1) (edgeMapper v0 v1))
          beginGhostVertex endGhostVertex).run.run []
        = (.ok (mapPath xs vertexMapper edgeMapper beginGhostVertex endGhostVertex), calls) ∧
      calls.filterMap PathCall.vertex? = xs := by
  have hplaces := getElem?_mapPath vertexMapper edgeMapper xs beginGhostVertex endGhostVertex
  refine ⟨length_mapPath vertexMapper edgeMapper xs beginGhostVertex endGhostVertex,
    ⟨_, mapPairs_eq ?_ edgeMapper, fun i => (hplaces i).1⟩, fun i => (hplaces i).2, _,
    run_mapPathM_calling xs vertexMapper edgeMapper beginGhostVertex endGhostVertex,
    filterMap_vertex?_mapPath xs beginGhostVertex endGhostVertex⟩
  rw [sandwich, List.length_append, List.length_append, List.length_singleton,
    List.length_singleton]
  omega

end ExamGeneratorNg
