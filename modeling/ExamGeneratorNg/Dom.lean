import ExamGeneratorNg.Util.Java
import ExamGeneratorNg.RoseTree.Basic

/-!
# The document

The part of an OpenDocument content tree the program looks at, and `util.DomUtils`.

A Java reference to a node is the number of the node in the loaded document: `some n` for the
elements of the document as it was loaded, `none` for the elements the program creates itself,
which no reference ever leads to.
-/

namespace ExamGeneratorNg

/-- The elements the program knows. -/
inductive Tag
  /-- `table:table-cell` -/
  | tableCell
  /-- `text:p` with its `text:style-name` (empty if there is none) -/
  | paragraph (styleName : JString)
  /-- `text:s` with its `text:c` -/
  | space (c : ℕ)
  /-- `text:line-break` -/
  | lineBreak
  /-- Any other element. -/
  | other (name : JString)
deriving DecidableEq, Repr

/-- A node of the document, without its children. -/
inductive NodeData
  | text (data : JString)
  /-- A comment or a processing instruction. -/
  | comment (data : JString)
  /-- An element, with the attributes the program does not look at. -/
  | element (ref : Option ℕ) (tag : Tag) (attributes : List (JString × JString))
deriving DecidableEq, Repr

/-- A node of the document with all its descendants. -/
abbrev Node := RoseTree NodeData

namespace NodeData

/-- The reference of an element of the loaded document. -/
def ref? : NodeData → Option ℕ
  | element ref _ _ => ref
  | _ => none

/-- `instanceof TableTableCellElement`. -/
def isTableCell : NodeData → Bool
  | element _ .tableCell _ => true
  | _ => false

/-- `instanceof TextPElement`. -/
def isParagraph : NodeData → Bool
  | element _ (.paragraph _) _ => true
  | _ => false

/-- The style name of a paragraph. -/
def getStyleName : NodeData → JString
  | element _ (.paragraph styleName) _ => styleName
  | _ => []

end NodeData

namespace Node

/-- `contentDom.createTextNode`. -/
def text (data : JString) : Node := .node (.text data) []

/-- `new TextSElement(contentDom)` with the given `text:c`. -/
def space (c : ℕ) : Node := .node (.element none (.space c) []) []

/-- `new TextLineBreakElement(contentDom)`. -/
def lineBreak : Node := .node (.element none .lineBreak []) []

/-- `new OdfTextParagraph(contentDom, styleName)` with the given children. -/
def paragraph (styleName : JString) (children : List Node) : Node :=
  .node (.element none (.paragraph styleName) []) children

mutual

/-- `node.getTextContent()`. -/
def getTextContent : Node → JString
  | .node (.text data) _ => data
  | .node (.comment data) _ => data
  | .node (.element _ _ _) children => getTextContents children

/-- The text content of the children of an element, where comments do not count. -/
def getTextContents : List Node → JString
  | [] => []
  | .node (.comment _) _ :: nodes => getTextContents nodes
  | node :: nodes => getTextContent node ++ getTextContents nodes

end

/-- `node.getFirstChild()`. -/
def getFirstChild (node : Node) : Option Node := node.children.head?

/-- The nodes that `ref` leads to. -/
def pointedTo (ref : Option ℕ) (data : NodeData) : Bool := data.ref? = ref

/-- `DomUtils.removeAllChildren` of the element of the document that `ref` leads to. -/
def removeAllChildren (contentDom : Node) (ref : Option ℕ) : Node :=
  contentDom.updateChildren (pointedTo ref) fun _ => []

/-- `appendChild` to the element of the document that `ref` leads to. -/
def appendChild (contentDom : Node) (ref : Option ℕ) (child : Node) : Node :=
  contentDom.updateChildren (pointedTo ref) (· ++ [child])

end Node

/-- A document as it is loaded: every element has a reference, and no two have the same. -/
structure Document where
  root : Node
  refs_nodup : (root.labels.filterMap NodeData.ref?).Nodup
  ref_ne_none : ∀ ref tag attributes, .element ref tag attributes ∈ root.labels → ref ≠ none

end ExamGeneratorNg
