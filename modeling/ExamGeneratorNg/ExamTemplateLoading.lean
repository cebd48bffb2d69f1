import ExamGeneratorNg.Placeholder
import ExamGeneratorNg.Dom

/-!
# Loading of exam templates

`ExamTemplateLoading`: the search for the placeholders of a document.
-/

namespace ExamGeneratorNg

open MatrixPlaceholder (isMatrixPlaceholder)
open LinePlaceholder (isLinePlaceholder)

/-- `PlaceholderRef`: a placeholder and where it stands. -/
structure PlaceholderRef where
  wrapperCell : Option ℕ
  styleName : JString
  placeholder : Placeholder
deriving DecidableEq, Repr

def isNotLineOrMatrixPlaceholder (node : Node) : Bool :=
  !((isMatrixPlaceholder node.getTextContent || isLinePlaceholder node.getTextContent)
    && node.label.isTableCell
    && node.getFirstChild.any fun child => child.label.isParagraph)

/-- The placeholder a text is parsed to. -/
def parsePlaceholder (textContent : JString) : Except JavaException Placeholder :=
  if isMatrixPlaceholder textContent then .matrix <$> MatrixPlaceholder.parse textContent
  else .line <$> LinePlaceholder.parse textContent

/-- The reference to a cell that `isNotLineOrMatrixPlaceholder` does not reject, so that the cell
is an element and has a first child, which is a paragraph. -/
def placeholderRefOf (node : Node) : Except JavaException PlaceholderRef := do
  let wrapperCell := node.label.ref?
  let firstParagraphStyleName :=
    (node.getFirstChild.map fun child => child.label.getStyleName).getD []
  let placeholder ← parsePlaceholder node.getTextContent
  pure ⟨wrapperCell, firstParagraphStyleName, placeholder⟩

mutual

def findPlaceholders : Node → Except JavaException (List PlaceholderRef)
  | .node data children => do
    if isNotLineOrMatrixPlaceholder (.node data children) then findPlaceholdersIn children
    else
      let placeholderRef ← placeholderRefOf (.node data children)
      pure [placeholderRef]

/-- The placeholders of the children of a node. -/
def findPlaceholdersIn : List Node → Except JavaException (List PlaceholderRef)
  | [] => pure []
  | child :: nodes => do
    let placeholderRefs ← findPlaceholders child
    let rest ← findPlaceholdersIn nodes
    pure (placeholderRefs ++ rest)

end

end ExamGeneratorNg
