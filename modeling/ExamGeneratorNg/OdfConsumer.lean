import ExamGeneratorNg.Dom

/-!
# What an OpenDocument consumer shows of a paragraph

The white-space processing an OpenDocument consumer is assumed to do: in the character data of a
paragraph a tab (like a line feed or a carriage return) counts as a space, a run of spaces inside
a text node is reduced to one space, and spaces at the very start and the very end of the
paragraph's character data are dropped; a `text:s` shows as its number of spaces and a
`text:line-break` as a line end.
-/

namespace ExamGeneratorNg.Odf

/-- The character data of a list of nodes. -/
def charData : List Node → JString
  | [] => []
  | .node (.text data) _ :: nodes => data ++ charData nodes
  | _ :: nodes => charData nodes

/-! ### White space -/

/-- The characters that count as a space. -/
def countsAsSpace (c : JChar) : Bool := c = chr '\t' || c = chr '\n' || c = chr '\r'

/-- Tabs, line feeds and carriage returns count as spaces. -/
def tabsToSpaces (data : JString) : JString :=
  data.map fun c => if countsAsSpace c then chr ' ' else c

/-- Runs of spaces are reduced to one. -/
def collapseRuns : JString → JString
  | a :: b :: s =>
    if a = chr ' ' ∧ b = chr ' ' then collapseRuns (b :: s) else a :: collapseRuns (b :: s)
  | s => s

/-- The node with its character data changed by `f`. -/
def mapText (f : JString → JString) : Node → Node
  | .node (.text data) children => .node (.text (f data)) children
  | node => node

/-- The nodes with the white space of every text node normalized. -/
def collapseTexts (nodes : List Node) : List Node :=
  nodes.map (mapText fun data => collapseRuns (tabsToSpaces data))

/-- The nodes without the spaces at the very start of their character data. -/
def dropLeading : List Node → List Node
  | [] => []
  | .node (.text data) children :: nodes =>
    match data.dropWhile (· = chr ' ') with
    | [] => .node (.text []) children :: dropLeading nodes
    | c :: data => .node (.text (c :: data)) children :: nodes
  | node :: nodes => node :: dropLeading nodes

/-- The nodes and their character data back to front. -/
def mirror (nodes : List Node) : List Node := (nodes.map (mapText List.reverse)).reverse

/-- The nodes without the spaces at the very end of their character data. -/
def dropTrailing (nodes : List Node) : List Node := mirror (dropLeading (mirror nodes))

/-! ### Lines -/

/-- The lines with `s` in front of the first one. -/
def prependToHead (s : JString) : List JString → List JString
  | [] => [s]
  | line :: lines => (s ++ line) :: lines

/-- The lines the nodes show as, once white space is normalized. -/
def shownLines : List Node → List JString
  | [] => [[]]
  | .node (.text data) _ :: nodes => prependToHead data (shownLines nodes)
  | .node (.element _ (.space c) _) _ :: nodes =>
    prependToHead (List.replicate c (chr ' ')) (shownLines nodes)
  | .node (.element _ .lineBreak _) _ :: nodes => [] :: shownLines nodes
  | _ :: nodes => shownLines nodes

/-- The lines a paragraph shows as. -/
def showParagraph (paragraph : Node) : List JString :=
  shownLines (dropTrailing (dropLeading (collapseTexts paragraph.children)))

end ExamGeneratorNg.Odf
