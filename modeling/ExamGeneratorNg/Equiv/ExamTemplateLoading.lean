import ExamGeneratorNg.Equiv.ExamTemplateRealization
import ExamGeneratorNg.Equiv.Placeholder
import ExamGeneratorNg.RoseTree.Lemmas

/-!
# Correctness of the search for placeholders and of filling them

`findPlaceholders` lists the outermost placeholder cells of a document (`findPlaceholders_eq`) and
throws if one of them is a line placeholder in lower case (`recognised_parses_iff`).
Filling them one after the other is replacing the children of all of them at once
(`run_fillPlaceholders`), so the order does not matter and nothing else is touched
(`placeholders_filled`).
-/

namespace ExamGeneratorNg

open RoseTree

/-! ### The search -/

/-- A table cell whose first child is a paragraph and whose text is that of a placeholder. -/
def isPlaceholderCell (node : Node) : Bool :=
  node.label.isTableCell && node.getFirstChild.any (fun child => child.label.isParagraph) &&
    (MatrixPlaceholder.isMatrixPlaceholder node.getTextContent ||
      LinePlaceholder.isLinePlaceholder node.getTextContent)

theorem isNotLineOrMatrixPlaceholder_eq (node : Node) :
    isNotLineOrMatrixPlaceholder node = !isPlaceholderCell node := by
  unfold isNotLineOrMatrixPlaceholder isPlaceholderCell
  rw [Bool.and_assoc, Bool.and_comm (_ || _)]

theorem findPlaceholdersIn_eq {nodes : List Node}
    (ih : ∀ node ∈ nodes,
      findPlaceholders node = (node.outermost isPlaceholderCell).mapM placeholderRefOf) :
    findPlaceholdersIn nodes
      = (nodes.flatMap (outermost isPlaceholderCell)).mapM placeholderRefOf := by
  induction nodes with
  | nil => rfl
  | cons node nodes ihnodes =>
    rw [findPlaceholdersIn, ih node List.mem_cons_self,
      ihnodes fun n hn => ih n (List.mem_cons_of_mem _ hn), List.flatMap_cons, List.mapM_append]

/-- **The search finds the outermost placeholder cells**, in the order of the document. -/
theorem findPlaceholders_eq (node : Node) :
    findPlaceholders node = (node.outermost isPlaceholderCell).mapM placeholderRefOf := by
  induction node using RoseTree.induction with
  | step data children ih =>
    rw [findPlaceholders, outermost_node, isNotLineOrMatrixPlaceholder_eq]
    by_cases hcell : isPlaceholderCell (.node data children)
    · rw [if_neg (by simp [hcell]), if_pos hcell, List.mapM_cons, List.mapM_nil]
      simp only [pure_bind]
    · rw [if_pos (by simp [hcell]), if_neg hcell]
      exact findPlaceholdersIn_eq ih

theorem mapM_eq_ok_of_forall {α β : Type} {f : α → Except JavaException β} {xs : List α}
    (h : ∀ x ∈ xs, ∃ y, f x = .ok y) :
    ∃ ys, xs.mapM f = .ok ys ∧ List.Forall₂ (fun x y => f x = .ok y) xs ys := by
  induction xs with
  | nil => exact ⟨[], rfl, .nil⟩
  | cons x xs ih =>
    obtain ⟨hx, hxs⟩ := List.forall_mem_cons.mp h
    obtain ⟨y, hy⟩ := hx
    obtain ⟨ys, hys, hall⟩ := ih hxs
    refine ⟨y :: ys, ?_, .cons hy hall⟩
    rw [List.mapM_cons, hy, hys]
    rfl

theorem mapM_ok_iff {α β : Type} {f : α → Except JavaException β} {xs : List α} :
    (∃ ys, xs.mapM f = .ok ys) ↔ ∀ x ∈ xs, ∃ y, f x = .ok y := by
  constructor
  · rintro ⟨ys, h⟩
    induction xs generalizing ys with
    | nil => simp
    | cons x xs ih =>
      rw [List.mapM_cons] at h
      cases hx : f x with
      | error e =>
        rw [hx] at h
        cases h
      | ok y =>
        cases hxs : xs.mapM f with
        | error e =>
          rw [hx, hxs] at h
          cases h
        | ok ys => exact List.forall_mem_cons.mpr ⟨⟨y, hx⟩, ih ys hxs⟩
  · intro h
    obtain ⟨ys, hys, -⟩ := mapM_eq_ok_of_forall h
    exact ⟨ys, hys⟩

theorem forall₂_of_map_eq {α β γ : Type} {f : α → Option β} {P : β → Prop} {R : β → γ → Prop}
    {xs : List α} {ys : List β} {zs : List γ} (hmap : xs.map f = ys.map some)
    (hP : ∀ y ∈ ys, P y) (hR : List.Forall₂ R ys zs) :
    List.Forall₂ (fun x z => ∃ y, f x = some y ∧ P y ∧ R y z) xs zs := by
  induction hR generalizing xs with
  | nil =>
    obtain rfl := List.map_eq_nil_iff.mp hmap
    exact .nil
  | @cons y z ys zs hyz _ ih =>
    cases xs with
    | nil => exact absurd hmap (by simp)
    | cons x xs =>
      rw [List.map_cons, List.map_cons, List.cons.injEq] at hmap
      exact .cons ⟨y, hmap.1, hP y (by simp), hyz⟩
        (ih hmap.2 fun y' hy' => hP y' (List.mem_cons_of_mem _ hy'))

theorem map_eq_of_forall₂ {α β γ : Type} {f : α → γ} {g : β → γ} {R : α → β → Prop} {xs : List α}
    {ys : List β} (h : List.Forall₂ R xs ys) (hfg : ∀ x y, R x y → g y = f x) :
    ys.map g = xs.map f := by
  induction h with
  | nil => rfl
  | cons hxy _ ih => rw [List.map_cons, List.map_cons, ih, hfg _ _ hxy]

theorem map_eq_map_some_filterMap {α β : Type} {g : α → Option β} {xs : List α}
    (h : ∀ x ∈ xs, g x ≠ none) : xs.map g = (xs.filterMap g).map some := by
  induction xs with
  | nil => rfl
  | cons x xs ih =>
    obtain ⟨hx, hxs⟩ := List.forall_mem_cons.mp h
    obtain ⟨b, hb⟩ := Option.ne_none_iff_exists'.mp hx
    rw [List.filterMap_cons_some hb, List.map_cons, List.map_cons, ih hxs, hb]

theorem placeholderRefOf_ok {node : Node} {placeholderRef : PlaceholderRef}
    (h : placeholderRefOf node = .ok placeholderRef) :
    placeholderRef.wrapperCell = node.label.ref? ∧
      placeholderRef.styleName
        = (node.getFirstChild.map fun child => child.label.getStyleName).getD [] ∧
      parsePlaceholder node.getTextContent = .ok placeholderRef.placeholder := by
  unfold placeholderRefOf at h
  cases hparse : parsePlaceholder node.getTextContent with
  | error e => rw [hparse] at h; exact absurd h (by simp [bind, Except.bind])
  | ok placeholder =>
    rw [hparse] at h
    obtain rfl := Except.ok.inj h
    exact ⟨rfl, rfl, rfl⟩

theorem placeholderRefOf_of_parse {node : Node} {placeholder : Placeholder}
    (h : parsePlaceholder node.getTextContent = .ok placeholder) :
    ∃ placeholderRef, placeholderRefOf node = .ok placeholderRef := by
  unfold placeholderRefOf
  rw [h]
  exact ⟨_, rfl⟩

/-- When the text of a placeholder cell parses: exactly when it has no lowercase letters. -/
theorem parsePlaceholder_ok_iff {text : JString}
    (h : MatrixPlaceholder.isMatrixPlaceholder text = true ∨
      LinePlaceholder.isLinePlaceholder text = true) :
    (∃ placeholder, parsePlaceholder text = .ok placeholder) ↔
      ∀ c ∈ text, isLowercase c = false := by
  unfold parsePlaceholder
  by_cases hmatrix : MatrixPlaceholder.isMatrixPlaceholder text = true
  · rw [if_pos hmatrix]
    obtain ⟨placeholder, hparse⟩ := exists_parse_of_isMatrixPlaceholder hmatrix
    rw [hparse]
    exact ⟨fun _ => not_isLowercase_of_isMatrixPlaceholder hmatrix, fun _ => ⟨_, rfl⟩⟩
  · rw [if_neg hmatrix, ← parse_linePlaceholder_ok_iff (h.resolve_left hmatrix)]
    cases LinePlaceholder.parse text with
    | error e => simp [Functor.map, Except.map]
    | ok placeholder => simp [Functor.map, Except.map]

theorem placeholderRefOf_ok_iff {cell : Node} (hcell : isPlaceholderCell cell = true) :
    (∃ placeholderRef, placeholderRefOf cell = .ok placeholderRef) ↔
      ∀ c ∈ cell.getTextContent, isLowercase c = false := by
  unfold isPlaceholderCell at hcell
  rw [Bool.and_eq_true, Bool.or_eq_true] at hcell
  rw [← parsePlaceholder_ok_iff hcell.2]
  constructor
  · rintro ⟨placeholderRef, h⟩
    exact ⟨placeholderRef.placeholder, (placeholderRefOf_ok h).2.2⟩
  · rintro ⟨placeholder, h⟩
    exact placeholderRefOf_of_parse h

theorem findPlaceholders_ok_iff (node : Node) :
    (∃ placeholderRefs, findPlaceholders node = .ok placeholderRefs) ↔
      ∀ cell ∈ node.outermost isPlaceholderCell, ∀ c ∈ Node.getTextContent cell,
        isLowercase c = false := by
  rw [findPlaceholders_eq, mapM_ok_iff]
  exact forall₂_congr fun cell hcell => placeholderRefOf_ok_iff (of_mem_outermost hcell)

/-- **When what is recognised parses**: a matrix placeholder always, a line placeholder exactly
when it is written in upper case, and so the search ends without an exception exactly when all the
cells it stops at are. -/
theorem recognised_parses_iff (text : JString) (node : Node) :
    (MatrixPlaceholder.isMatrixPlaceholder text = true →
      ∃ placeholder, MatrixPlaceholder.parse text = .ok placeholder) ∧
    ((LinePlaceholder.isLinePlaceholder text = true →
        ∃ placeholder, LinePlaceholder.parse text = .ok placeholder) ↔
      (LinePlaceholder.isLinePlaceholder text = true → ∀ c ∈ text, isLowercase c = false)) ∧
    ((∃ placeholderRefs, findPlaceholders node = .ok placeholderRefs) ↔
      ∀ cell ∈ node.outermost isPlaceholderCell, ∀ c ∈ Node.getTextContent cell,
        isLowercase c = false) := by
  refine ⟨exists_parse_of_isMatrixPlaceholder, ?_, findPlaceholders_ok_iff node⟩
  exact imp_congr_right fun h => parse_linePlaceholder_ok_iff h

/-- The group in lower case is recognised and not parsed, alone and in a cell. -/
theorem lowercase_line_placeholder_throws :
    ¬ ((∀ text, MatrixPlaceholder.isMatrixPlaceholder text = true →
        ∃ placeholder, MatrixPlaceholder.parse text = .ok placeholder) ∧
      (∀ text, LinePlaceholder.isLinePlaceholder text = true →
        ∃ placeholder, LinePlaceholder.parse text = .ok placeholder) ∧
      ∀ node, ∃ placeholderRefs, findPlaceholders node = .ok placeholderRefs) := by
  rintro ⟨-, hline, -⟩
  obtain ⟨placeholder, hparse⟩ := hline (jstr "$g") (by decide)
  have hthrows : LinePlaceholder.parse (jstr "$g") = .error .illegalArgumentException := by decide
  rw [hthrows] at hparse
  cases hparse

/-! ### Filling all cells at once -/

/-- The new children of the cells, by their references. -/
def newChildren (paragraphOf : PlaceholderRef → Node) (placeholderRefs : List PlaceholderRef)
    (data : NodeData) : Option (List Node) :=
  (placeholderRefs.find? fun placeholderRef =>
    Node.pointedTo placeholderRef.wrapperCell data).map fun placeholderRef =>
      [paragraphOf placeholderRef]

theorem writeCell_eq (contentDom : Node) (placeholderRef : PlaceholderRef) (paragraph : Node) :
    writeCell contentDom placeholderRef paragraph
      = contentDom.updateChildren (Node.pointedTo placeholderRef.wrapperCell)
          fun _ => [paragraph] := by
  unfold writeCell Node.removeAllChildren Node.appendChild
  rw [updateChildren_updateChildren]
  rfl

/-- The cell that is written has one paragraph, and is the same cell otherwise. -/
theorem subtree?_writeCell {contentDom cell : Node} {placeholderRef : PlaceholderRef} {path : Path}
    (hcell : contentDom.subtree? path = some cell)
    (houtermost : contentDom.IsOutermost
      (fun node => Node.pointedTo placeholderRef.wrapperCell node.label) path)
    (paragraph : Node) :
    (writeCell contentDom placeholderRef paragraph).subtree? path
      = some (.node cell.label [paragraph]) := by
  obtain ⟨⟨cell', hcell', hpointed⟩, habove⟩ := houtermost
  obtain rfl : cell = cell' := Option.some.inj (hcell.symm.trans hcell')
  -- replacing the children of the cell is replacing those of all nodes that `ref` leads to
  have hset := updateChildren_setChildren (p := Node.pointedTo placeholderRef.wrapperCell)
    (f := fun _ => none) (fun _ _ h => nomatch h) [paragraph] contentDom
  rw [setChildren_none] at hset
  rw [writeCell_eq, hset]
  refine subtree?_setChildren_of_selected hcell (if_pos hpointed) fun q hq hne node hnode => ?_
  exact if_neg (Bool.eq_false_iff.mp (habove q hq hne node hnode))

/-- Nothing the program creates can be referred to. -/
def Created (node : Node) : Prop := ∀ data ∈ node.labels, data.ref? = none

theorem Encodes.created {last : LastNode} {nodes : List Node} {line : JString}
    (h : Encodes last nodes line) : ∀ node ∈ nodes, Created node := by
  have htext : ∀ data, Created (Node.text data) := by
    intro data
    simp [Created, Node.text, NodeData.ref?]
  have hspace : ∀ c, Created (Node.space c) := by
    intro c
    simp [Created, Node.space, NodeData.ref?]
  induction h with
  | nil => simp
  | firstText data hne hdouble => simpa using htext data
  | space h hlast c hc ih =>
    intro node hnode
    rcases List.mem_append.mp hnode with hnode | hnode
    · exact ih node hnode
    · obtain rfl := List.mem_singleton.mp hnode
      exact hspace c
  | laterText h data hne hdouble hhead ih =>
    intro node hnode
    rcases List.mem_append.mp hnode with hnode | hnode
    · exact ih node hnode
    · obtain rfl := List.mem_singleton.mp hnode
      exact htext data

theorem mem_join {T : Type} {a : T} {sep : List T} {xss : List (List T)} (h : a ∈ join sep xss) :
    a ∈ sep ∨ ∃ xs ∈ xss, a ∈ xs := by
  induction xss using join.induct with
  | case1 => exact absurd h (by simp [join])
  | case2 xs => exact Or.inr ⟨xs, by simp, h⟩
  | case3 xs ys rest ih =>
    rw [join, List.append_assoc, List.mem_append, List.mem_append] at h
    rcases h with h | h | h
    · exact Or.inr ⟨xs, by simp, h⟩
    · exact Or.inl h
    · exact (ih h).imp id fun ⟨zs, hzs, ha⟩ => ⟨zs, List.mem_cons_of_mem _ hzs, ha⟩

theorem exists_of_mem_forall₂ {α β : Type} {R : α → β → Prop} {xs : List α} {ys : List β} {x : α}
    (h : List.Forall₂ R xs ys) (hx : x ∈ xs) : ∃ y ∈ ys, R x y := by
  induction h with
  | nil => exact absurd hx (by simp)
  | @cons x' y xs ys hxy _ ih =>
    rcases List.mem_cons.mp hx with rfl | hx
    · exact ⟨y, by simp, hxy⟩
    · obtain ⟨y', hy', h⟩ := ih hx
      exact ⟨y', List.mem_cons_of_mem _ hy', h⟩

/-- What `lineStringToParagraph` builds is new. -/
theorem created_of_lineStringToParagraph {str : LineString} {styleName : JString} {paragraph : Node}
    (h : lineStringToParagraph str styleName = .ok paragraph) :
    Created paragraph ∧ ∃ nodes, paragraph = Node.paragraph styleName nodes := by
  obtain ⟨nodesMatrix, hparagraph, hencodes⟩ := lineStringToParagraph_spec str styleName
  rw [hparagraph] at h
  obtain rfl := Except.ok.inj h
  refine ⟨?_, _, rfl⟩
  intro data hdata
  rw [Node.paragraph, labels_node, List.mem_cons, List.mem_flatMap] at hdata
  rcases hdata with rfl | ⟨node, hnode, hdata⟩
  · rfl
  · rcases mem_join hnode with hnode | ⟨nodes, hnodes, hnode⟩
    · obtain rfl := List.mem_singleton.mp hnode
      rw [Node.lineBreak, labels_node] at hdata
      obtain rfl : data = .element none .lineBreak [] := by simpa using hdata
      rfl
    · obtain ⟨line, -, last, hline⟩ := exists_of_mem_forall₂ hencodes hnodes
      exact hline.created node hnode data hdata

section

variable (toLowerCase : JString → JString) {placeholderRefs : List PlaceholderRef} {exam : Exam}
  {variant : ExamVariant}

/-- The paragraph that is written into the cell of a placeholder. -/
def paragraphFor (exam : Exam) (variant : ExamVariant) (placeholderRef : PlaceholderRef) :
    Except JavaException Node := do
  let content ← contentForPlaceholder toLowerCase placeholderRef.placeholder exam variant
  lineStringToParagraph content placeholderRef.styleName

theorem run_fillPlaceholder_of_paragraph {placeholderRef : PlaceholderRef} {paragraph : Node}
    (h : paragraphFor toLowerCase exam variant placeholderRef = .ok paragraph) (contentDom : Node) :
    (fillPlaceholder toLowerCase placeholderRef exam variant).run.run contentDom
      = (.ok (), writeCell contentDom placeholderRef paragraph) := by
  unfold paragraphFor at h
  cases hcontent : contentForPlaceholder toLowerCase placeholderRef.placeholder exam variant with
  | error e => rw [hcontent] at h; exact absurd h (by simp [bind, Except.bind])
  | ok content =>
    obtain ⟨paragraph', hparagraph, hrun⟩ :=
      run_fillPlaceholder_ok toLowerCase hcontent contentDom
    rw [hcontent] at h
    obtain rfl : paragraph' = paragraph := Except.ok.inj (hparagraph.symm.trans h)
    exact hrun

/-- Filling ends well only if there is a paragraph for every placeholder. -/
theorem exists_paragraphOf {contentDom result : Node}
    (h : (fillPlaceholders toLowerCase placeholderRefs exam variant).run.run contentDom
      = (.ok (), result)) :
    ∃ paragraphOf : PlaceholderRef → Node, ∀ placeholderRef ∈ placeholderRefs,
      paragraphFor toLowerCase exam variant placeholderRef = .ok (paragraphOf placeholderRef) := by
  have hcontents := (fillPlaceholders_ok_iff toLowerCase).mp (congrArg Prod.fst h)
  have hparagraphs : ∀ placeholderRef, ∃ paragraph, placeholderRef ∈ placeholderRefs →
      paragraphFor toLowerCase exam variant placeholderRef = .ok paragraph := by
    intro placeholderRef
    by_cases hmem : placeholderRef ∈ placeholderRefs
    · obtain ⟨content, hcontent⟩ := hcontents placeholderRef hmem
      obtain ⟨nodesMatrix, hparagraph, -⟩ :=
        lineStringToParagraph_spec content placeholderRef.styleName
      refine ⟨Node.paragraph placeholderRef.styleName (join [Node.lineBreak] nodesMatrix),
        fun _ => ?_⟩
      unfold paragraphFor
      rw [hcontent]
      exact hparagraph
    · exact ⟨Node.lineBreak, fun h => absurd h hmem⟩
  choose paragraphOf hparagraphOf using hparagraphs
  exact ⟨paragraphOf, hparagraphOf⟩

theorem created_paragraph {placeholderRef : PlaceholderRef} {paragraph : Node}
    (h : paragraphFor toLowerCase exam variant placeholderRef = .ok paragraph) :
    Created paragraph ∧ ∃ nodes, paragraph = Node.paragraph placeholderRef.styleName nodes := by
  unfold paragraphFor at h
  cases hcontent : contentForPlaceholder toLowerCase placeholderRef.placeholder exam variant with
  | error e => rw [hcontent] at h; exact absurd h (by simp [bind, Except.bind])
  | ok content =>
    rw [hcontent] at h
    exact created_of_lineStringToParagraph h

variable {toLowerCase} {paragraphOf : PlaceholderRef → Node}

/-- One more cell, after the cells `filled`. -/
theorem writeCell_setChildren {filled : List PlaceholderRef} {placeholderRef : PlaceholderRef}
    (href : placeholderRef.wrapperCell ≠ none)
    (hcreated : ∀ r ∈ filled, Created (paragraphOf r)) (root : Node) :
    writeCell (root.setChildren (newChildren paragraphOf filled)) placeholderRef
        (paragraphOf placeholderRef)
      = root.setChildren (newChildren paragraphOf (placeholderRef :: filled)) := by
  rw [writeCell_eq, updateChildren_setChildren]
  · congr 1
    ext1 data
    unfold newChildren
    rw [List.find?_cons]
    by_cases hdata : Node.pointedTo placeholderRef.wrapperCell data
    · simp [hdata]
    · simp [hdata]
  · -- a paragraph that was written before has no reference yet
    intro data new hnew node hnode data' hdata'
    unfold newChildren at hnew
    obtain ⟨r, hr, rfl⟩ := Option.map_eq_some_iff.mp hnew
    obtain rfl := List.mem_singleton.mp hnode
    have hnone := hcreated r (List.mem_of_find?_eq_some hr) data' hdata'
    rw [Node.pointedTo, decide_eq_false_iff_not, hnone]
    exact Ne.symm href

theorem run_fillPlaceholders_from (filled : List PlaceholderRef)
    (hparagraphs : ∀ r ∈ filled ++ placeholderRefs,
      paragraphFor toLowerCase exam variant r = .ok (paragraphOf r))
    (hrefs : ∀ r ∈ placeholderRefs, r.wrapperCell ≠ none) (root : Node) :
    (fillPlaceholders toLowerCase placeholderRefs exam variant).run.run
        (root.setChildren (newChildren paragraphOf filled))
      = (.ok (),
        root.setChildren (newChildren paragraphOf (placeholderRefs.reverse ++ filled))) := by
  induction placeholderRefs generalizing filled with
  | nil => rfl
  | cons placeholderRef placeholderRefs ih =>
    unfold fillPlaceholders at ih ⊢
    obtain ⟨hhead, htail⟩ := List.forall_mem_cons.mp hrefs
    have hparagraph := hparagraphs placeholderRef (by simp)
    have hcreated : ∀ r ∈ filled, Created (paragraphOf r) := fun r hr =>
      (created_paragraph toLowerCase (hparagraphs r (List.mem_append_left _ hr))).1
    rw [List.forM_cons, Stateful.run_bind, run_fillPlaceholder_of_paragraph toLowerCase hparagraph,
      writeCell_setChildren hhead hcreated]
    show (forM placeholderRefs _ : Filling Unit).run.run _ = _
    rw [ih (placeholderRef :: filled) (fun r hr => hparagraphs r (by
      simp only [List.cons_append, List.mem_cons, List.mem_append] at hr ⊢
      tauto)) htail]
    simp

/-- **Filling the placeholders one after the other replaces all cells at once.** -/
theorem run_fillPlaceholders
    (hparagraphs : ∀ r ∈ placeholderRefs,
      paragraphFor toLowerCase exam variant r = .ok (paragraphOf r))
    (hrefs : ∀ r ∈ placeholderRefs, r.wrapperCell ≠ none) (root : Node) :
    (fillPlaceholders toLowerCase placeholderRefs exam variant).run.run root
      = (.ok (), root.setChildren (newChildren paragraphOf placeholderRefs.reverse)) := by
  have hrun := run_fillPlaceholders_from [] hparagraphs hrefs root
  have hnone : newChildren paragraphOf [] = fun _ => none := rfl
  rwa [hnone, setChildren_none, List.append_nil] at hrun

/-- With distinct references, the order of the list makes no difference. -/
theorem newChildren_perm {refs₁ refs₂ : List PlaceholderRef} (hperm : refs₁.Perm refs₂)
    (hnodup : (refs₁.map PlaceholderRef.wrapperCell).Nodup) :
    newChildren paragraphOf refs₁ = newChildren paragraphOf refs₂ := by
  ext1 data
  unfold newChildren
  congr 1
  -- at most one reference points to the node, so both searches find the same
  have hunique : ∀ r ∈ refs₁, ∀ r' ∈ refs₁, Node.pointedTo r.wrapperCell data = true →
      Node.pointedTo r'.wrapperCell data = true → r = r' := by
    intro r hr r' hr' h h'
    simp only [Node.pointedTo, decide_eq_true_eq] at h h'
    exact List.inj_on_of_nodup_map hnodup hr hr' (h.symm.trans h')
  cases h₂ : refs₂.find? fun r => Node.pointedTo r.wrapperCell data with
  | none =>
    rw [List.find?_eq_none] at h₂ ⊢
    exact fun r hr => h₂ r (hperm.mem_iff.mp hr)
  | some r =>
    have hr := hperm.mem_iff.mpr (List.mem_of_find?_eq_some h₂)
    have hrdata : Node.pointedTo r.wrapperCell data = true := by simpa using List.find?_some h₂
    cases h₁ : refs₁.find? fun r => Node.pointedTo r.wrapperCell data with
    | none =>
      rw [List.find?_eq_none] at h₁
      exact absurd hrdata (h₁ r hr)
    | some r' =>
      have hrdata' : Node.pointedTo r'.wrapperCell data = true := by
        simpa using List.find?_some h₁
      rw [hunique r' (List.mem_of_find?_eq_some h₁) r hr hrdata' hrdata]

theorem newChildren_of_mem {refs : List PlaceholderRef} {r : PlaceholderRef} {data : NodeData}
    (hnodup : (refs.map PlaceholderRef.wrapperCell).Nodup) (hr : r ∈ refs)
    (hdata : data.ref? = r.wrapperCell) : newChildren paragraphOf refs data
      = some [paragraphOf r] := by
  obtain ⟨before, after, rfl⟩ := List.append_of_mem hr
  have hperm : (before ++ r :: after).Perm (r :: (before ++ after)) := List.perm_middle
  rw [newChildren_perm hperm hnodup, newChildren, List.find?_cons]
  simp [Node.pointedTo, hdata]

end

/-! ### The whole document -/

/-- `result` is `root` with one paragraph in place of what the cells at `paths` held: every node
that is not inside one of the cells is as it was, where it was. -/
structure FilledAt (paths : List Path) (root result : Node) : Prop where
  labels : ∀ path, (∀ q ∈ paths, q <+: path → q = path) →
    (result.subtree? path).map label = (root.subtree? path).map label
  children : ∀ path, (∀ q ∈ paths, ¬ q <+: path) →
    (result.subtree? path).map (fun node => node.children.length)
      = (root.subtree? path).map (fun node => node.children.length)
  cells : ∀ path ∈ paths, ∃ (cell firstParagraph : Node) (nodes : List Node),
    root.subtree? path = some cell ∧ cell.getFirstChild = some firstParagraph ∧
    firstParagraph.label.isParagraph = true ∧
    result.subtree? path
      = some (.node cell.label [Node.paragraph firstParagraph.label.getStyleName nodes])

/-- The placeholder at a path of the document. -/
def RefersTo (root : Node) (path : Path) (placeholderRef : PlaceholderRef) : Prop :=
  ∃ cell : Node, root.subtree? path = some cell ∧ isPlaceholderCell cell = true ∧
    placeholderRefOf cell = .ok placeholderRef

theorem exists_ref_of_isPlaceholderCell {document : Document} {path : Path} {cell : Node}
    (hcell : document.root.subtree? path = some cell) (hP : isPlaceholderCell cell = true) :
    ∃ n, cell.label.ref? = some n := by
  have hmem := label_mem_labels hcell
  unfold isPlaceholderCell at hP
  rw [Bool.and_eq_true, Bool.and_eq_true] at hP
  have htable := hP.1.1
  cases hlabel : cell.label with
  | text data => rw [hlabel] at htable; exact absurd htable (by simp [NodeData.isTableCell])
  | comment data => rw [hlabel] at htable; exact absurd htable (by simp [NodeData.isTableCell])
  | element ref tag attributes =>
    rw [hlabel] at hmem
    exact Option.ne_none_iff_exists'.mp (document.ref_ne_none ref tag attributes hmem)

/-- No two of the outermost placeholder cells are the same element. -/
theorem nodup_wrapperCells {document : Document} {placeholderRefs : List PlaceholderRef}
    (hrefs : List.Forall₂ (fun cell placeholderRef => placeholderRefOf cell = .ok placeholderRef)
      (document.root.outermost isPlaceholderCell) placeholderRefs) :
    (placeholderRefs.map PlaceholderRef.wrapperCell).Nodup := by
  have hsome : ∀ cell ∈ document.root.outermost isPlaceholderCell, cell.label.ref? ≠ none := by
    intro cell hcell
    have hpath : some cell ∈ (document.root.outermostPaths isPlaceholderCell).map
        document.root.subtree? := by
      rw [map_subtree?_outermostPaths]
      exact List.mem_map_of_mem hcell
    obtain ⟨path, -, hsubtree⟩ := List.mem_map.mp hpath
    obtain ⟨n, hn⟩ := exists_ref_of_isPlaceholderCell hsubtree (of_mem_outermost hcell)
    rw [hn]
    simp
  rw [map_eq_of_forall₂ hrefs fun cell r h => (placeholderRefOf_ok h).1,
    map_eq_map_some_filterMap hsome]
  refine List.Nodup.map (fun _ _ h => Option.some.inj h) ?_
  refine document.refs_nodup.sublist ?_
  rw [labels, List.filterMap_map]
  exact (outermost_sublist_subtrees _ _).filterMap _

section

variable {document : Document} {paths : List Path} {placeholderRefs : List PlaceholderRef}
  (hrefers : List.Forall₂ (RefersTo document.root) paths placeholderRefs)

include hrefers

theorem wrapperCell_ne_none {r : PlaceholderRef} (hr : r ∈ placeholderRefs) :
    r.wrapperCell ≠ none := by
  obtain ⟨path, -, cell, hcell, hP, hok⟩ := exists_of_mem_forall₂ hrefers.flip hr
  obtain ⟨n, hn⟩ := exists_ref_of_isPlaceholderCell hcell hP
  rw [(placeholderRefOf_ok hok).1, hn]
  simp

/-- Only the cells at the paths have the reference of a placeholder. -/
theorem mem_paths_of_newChildren {paragraphOf : PlaceholderRef → Node} {path : Path} {node : Node}
    (hnode : document.root.subtree? path = some node)
    (hsome : newChildren paragraphOf placeholderRefs.reverse node.label ≠ none) : path ∈ paths := by
  obtain ⟨new, hnew⟩ := Option.ne_none_iff_exists'.mp hsome
  obtain ⟨r, hr, -⟩ := Option.map_eq_some_iff.mp hnew
  have hpoint : Node.pointedTo r.wrapperCell node.label = true := by simpa using List.find?_some hr
  have hmem := List.mem_reverse.mp (List.mem_of_find?_eq_some hr)
  obtain ⟨q, hq, cell, hcell, hP, hok⟩ := exists_of_mem_forall₂ hrefers.flip hmem
  obtain ⟨n, hn⟩ := exists_ref_of_isPlaceholderCell hcell hP
  rw [Node.pointedTo, decide_eq_true_eq, (placeholderRefOf_ok hok).1, hn] at hpoint
  rw [eq_of_subtree?_of_nodup document.refs_nodup hnode hcell hpoint hn]
  exact hq

theorem filledAt_setChildren {toLowerCase : JString → JString} {exam : Exam}
    {variant : ExamVariant} {paragraphOf : PlaceholderRef → Node}
    (hparagraphs : ∀ r ∈ placeholderRefs,
      paragraphFor toLowerCase exam variant r = .ok (paragraphOf r))
    (hnodup : (placeholderRefs.map PlaceholderRef.wrapperCell).Nodup)
    (hflat : ∀ p ∈ paths, ∀ q ∈ paths, p <+: q → p = q) :
    FilledAt paths document.root
      (document.root.setChildren (newChildren paragraphOf placeholderRefs.reverse)) := by
  -- above the nodes that are compared no children are replaced
  have hbelow : ∀ path, (∀ q ∈ paths, q <+: path → q = path) → ∀ q, q <+: path → q ≠ path →
      ∀ node, document.root.subtree? q = some node →
        newChildren paragraphOf placeholderRefs.reverse node.label = none := by
    intro path hpath q hq hne node hnode
    by_contra hsome
    exact hne (hpath q (mem_paths_of_newChildren hrefers hnode hsome) hq)
  refine ⟨?_, ?_, ?_⟩
  · intro path hpath
    rw [subtree?_setChildren_of_not_below (hbelow path hpath), Option.map_map]
    congr 1
    ext1 node
    exact label_setChildren _ node
  · intro path hpath
    rw [subtree?_setChildren_of_not_below
      (hbelow path fun q hq hprefix => absurd hprefix (hpath q hq)), Option.map_map]
    cases hnode : document.root.subtree? path with
    | none => rfl
    | some node =>
      have hnone : newChildren paragraphOf placeholderRefs.reverse node.label = none := by
        by_contra hsome
        exact hpath path (mem_paths_of_newChildren hrefers hnode hsome) (List.prefix_refl path)
      obtain ⟨data, children⟩ := node
      rw [label_node] at hnone
      simp only [Option.map_some, Function.comp_apply, setChildren_node, hnone, Option.getD_none,
        children_node, List.length_map]
  · intro path hpath
    obtain ⟨r, hr, cell, hcell, hP, hok⟩ := exists_of_mem_forall₂ hrefers hpath
    obtain ⟨hwrapper, hstyle, -⟩ := placeholderRefOf_ok hok
    have hP' := hP
    unfold isPlaceholderCell at hP'
    rw [Bool.and_eq_true, Bool.and_eq_true, Option.any_eq_true] at hP'
    obtain ⟨firstParagraph, hfirst, hparagraph⟩ := hP'.1.2
    obtain ⟨-, nodes, hnodes⟩ := created_paragraph toLowerCase (hparagraphs r hr)
    refine ⟨cell, firstParagraph, nodes, hcell, hfirst, hparagraph, ?_⟩
    have hnodup' : (placeholderRefs.reverse.map PlaceholderRef.wrapperCell).Nodup := by
      rw [List.map_reverse]
      exact List.nodup_reverse.mpr hnodup
    have hnew : newChildren paragraphOf placeholderRefs.reverse cell.label
        = some [paragraphOf r] :=
      newChildren_of_mem hnodup' (List.mem_reverse.mpr hr) hwrapper.symm
    rw [subtree?_setChildren_of_selected hcell hnew
      (hbelow path fun q hq hprefix => hflat q hq path hpath hprefix), hnodes, hstyle, hfirst]
    rfl

end

/-- **Filling touches only the placeholder cells, all of them, once each.**  The search lists the
outermost placeholder cells in the order of the document, each once and none inside another; when
they are filled, everything else stays as it was, each cell holds one paragraph in the style of
its first one, and the order of the list makes no difference. -/
theorem placeholders_filled (document : Document)
    (hparse : ∀ node : Node, node ∈ document.root.subtrees → isPlaceholderCell node = true →
      ∃ placeholder, parsePlaceholder node.getTextContent = .ok placeholder) :
    ∃ (placeholderRefs : List PlaceholderRef) (paths : List Path),
      findPlaceholders document.root = .ok placeholderRefs ∧
      List.Forall₂ (RefersTo document.root) paths placeholderRefs ∧
      paths.Pairwise (· < ·) ∧
      (∀ path, path ∈ paths ↔ document.root.IsOutermost isPlaceholderCell path) ∧
      (placeholderRefs.map PlaceholderRef.wrapperCell).Nodup ∧
      (∀ p ∈ paths, ∀ q ∈ paths, p <+: q → p = q) ∧
      ∀ toLowerCase exam variant result,
        (fillPlaceholders toLowerCase placeholderRefs exam variant).run.run document.root
          = (.ok (), result) →
        FilledAt paths document.root result ∧
        ∀ placeholderRefs' : List PlaceholderRef, placeholderRefs'.Perm placeholderRefs →
          (fillPlaceholders toLowerCase placeholderRefs' exam variant).run.run document.root
            = (.ok (), result) := by
  have hcells : ∀ cell ∈ document.root.outermost isPlaceholderCell,
      ∃ placeholderRef, placeholderRefOf cell = .ok placeholderRef := by
    intro cell hcell
    obtain ⟨placeholder, hplaceholder⟩ :=
      hparse cell ((outermost_sublist_subtrees _ _).subset hcell) (of_mem_outermost hcell)
    exact placeholderRefOf_of_parse hplaceholder
  obtain ⟨placeholderRefs, hmapM, hrefs⟩ := mapM_eq_ok_of_forall hcells
  have hrefers : List.Forall₂ (RefersTo document.root)
      (document.root.outermostPaths isPlaceholderCell) placeholderRefs :=
    forall₂_of_map_eq (map_subtree?_outermostPaths _ _) (fun cell hcell => of_mem_outermost hcell)
      hrefs
  have hnodup : (placeholderRefs.map PlaceholderRef.wrapperCell).Nodup :=
    nodup_wrapperCells hrefs
  have hflat : ∀ p ∈ document.root.outermostPaths isPlaceholderCell,
      ∀ q ∈ document.root.outermostPaths isPlaceholderCell, p <+: q → p = q :=
    fun p hp q hq => eq_of_mem_outermostPaths hp hq
  refine ⟨placeholderRefs, document.root.outermostPaths isPlaceholderCell, ?_, hrefers,
    pairwise_outermostPaths _ _, fun path => mem_outermostPaths, hnodup, hflat, ?_⟩
  · rw [findPlaceholders_eq, hmapM]
  · intro toLowerCase exam variant result hrun
    obtain ⟨paragraphOf, hparagraphs⟩ := exists_paragraphOf toLowerCase hrun
    have hne : ∀ r ∈ placeholderRefs, r.wrapperCell ≠ none := fun r hr =>
      wrapperCell_ne_none hrefers hr
    obtain rfl : document.root.setChildren (newChildren paragraphOf placeholderRefs.reverse)
        = result := by
      rw [run_fillPlaceholders hparagraphs hne] at hrun
      exact congrArg Prod.snd hrun
    refine ⟨filledAt_setChildren hrefers hparagraphs hnodup hflat, fun refs' hperm => ?_⟩
    rw [run_fillPlaceholders (fun r hr => hparagraphs r (hperm.mem_iff.mp hr))
      (fun r hr => hne r (hperm.mem_iff.mp hr))]
    have hreverse : refs'.reverse.Perm placeholderRefs.reverse :=
      (List.reverse_perm refs').trans (hperm.trans (List.reverse_perm placeholderRefs).symm)
    have hnodup' : (refs'.reverse.map PlaceholderRef.wrapperCell).Nodup := by
      rw [List.map_reverse, List.nodup_reverse]
      exact (hperm.map _).nodup_iff.mpr hnodup
    rw [newChildren_perm hreverse hnodup']

/-- A heading, a cell with a code placeholder, a cell with a text of its own, and a cell for the
group. -/
def smallDocument : Document where
  root := .node (.element (some 0) (.other (jstr "body")) [])
    [.node (.element (some 1) (.paragraph (jstr "Title")) []) [Node.text (jstr "Exam")],
      .node (.element (some 2) .tableCell [])
        [.node (.element (some 3) (.paragraph (jstr "Code")) []) [Node.text (jstr "#01--\\")]],
      .node (.element (some 4) .tableCell [])
        [.node (.element (some 5) (.paragraph (jstr "Code")) []) [Node.text (jstr "01")]],
      .node (.element (some 6) .tableCell [])
        [.node (.element (some 7) (.paragraph (jstr "Group")) []) [Node.text (jstr "$G")]]]
  refs_nodup := by decide
  ref_ne_none := by
    intro ref tag attributes hmem
    simp only [labels_node, List.flatMap_cons, List.flatMap_nil, Node.text, List.append_nil,
      List.mem_cons, List.mem_append, List.not_mem_nil, or_false, reduceCtorEq] at hmem
    rintro rfl
    simp at hmem

theorem findPlaceholders_smallDocument : findPlaceholders smallDocument.root
    = .ok [⟨some 2, jstr "Code", .matrix ⟨5, 2, 1, 0, .code⟩⟩,
      ⟨some 6, jstr "Group", .line ⟨2, .group⟩⟩] := by
  decide

/-- Both placeholders are filled, in either order. -/
theorem placeholders_filled_example :
    ∃ (placeholderRefs : List PlaceholderRef) (paths : List Path) (result : Node),
      findPlaceholders smallDocument.root = .ok placeholderRefs ∧ paths.length = 2 ∧
      FilledAt paths smallDocument.root result ∧
      (fillPlaceholders asciiToLowerCase placeholderRefs
          (buildExamModel (oneProgram (jstr "1") [] []) .A .student) .student).run.run
        smallDocument.root = (.ok (), result) ∧
      (fillPlaceholders asciiToLowerCase placeholderRefs.reverse
          (buildExamModel (oneProgram (jstr "1") [] []) .A .student) .student).run.run
        smallDocument.root = (.ok (), result) := by
  have hparse : ∀ node : Node, node ∈ smallDocument.root.subtrees →
      isPlaceholderCell node = true →
      ∃ placeholder, parsePlaceholder node.getTextContent = .ok placeholder := by
    intro node hnode hP
    simp only [smallDocument, subtrees_node, List.flatMap_cons, List.flatMap_nil, Node.text,
      List.append_nil, List.cons_append, List.nil_append, List.mem_cons, List.not_mem_nil,
      or_false] at hnode
    rcases hnode with rfl | rfl | rfl | rfl | rfl | rfl | rfl | rfl | rfl | rfl | rfl | rfl
    · exact absurd hP (by decide)
    · exact absurd hP (by decide)
    · exact absurd hP (by decide)
    · exact ⟨.matrix ⟨5, 2, 1, 0, .code⟩, rfl⟩
    · exact absurd hP (by decide)
    · exact absurd hP (by decide)
    · exact absurd hP (by decide)
    · exact absurd hP (by decide)
    · exact absurd hP (by decide)
    · exact ⟨.line ⟨2, .group⟩, rfl⟩
    · exact absurd hP (by decide)
    · exact absurd hP (by decide)
  obtain ⟨placeholderRefs, paths, hfind, hrefers, -, -, -, -, hfilled⟩ :=
    placeholders_filled smallDocument hparse
  have hrefs := Except.ok.inj (findPlaceholders_smallDocument.symm.trans hfind)
  obtain ⟨result, hrun⟩ : ∃ result, (fillPlaceholders asciiToLowerCase placeholderRefs
      (buildExamModel (oneProgram (jstr "1") [] []) .A .student) .student).run.run
        smallDocument.root = (.ok (), result) := by
    rw [← hrefs]
    exact ⟨_, rfl⟩
  obtain ⟨hat, horder⟩ := hfilled _ _ _ _ hrun
  refine ⟨placeholderRefs, paths, result, hfind, ?_, hat, hrun, horder _ (List.reverse_perm _)⟩
  rw [hrefers.length_eq, ← hrefs]
  rfl

end ExamGeneratorNg
