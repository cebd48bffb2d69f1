import ExamGeneratorNg.LineTemplate

/-!
# Realization of program templates

`ProgramTemplateRealization`: the lines of a program as a student, a teacher or the compiler gets
to see them.
-/

namespace ExamGeneratorNg

/-- For whom a program is realized. -/
inductive ProgramVariant
  | student
  | teacher
  | compiler
deriving DecidableEq, Repr

def realizeNode (node : LineNode) (variant : ProgramVariant) : JString :=
  match node with
  | .text content => content
  | .gap content =>
    if variant = .student then
      let gapLength := content.length
      nCopiesOfChar gapLength (chr '_')
    else content

def realizeLineTemplateNodes (lineTemplate : LineTemplate) (variant : ProgramVariant) : JString :=
  lineTemplate.nodes.flatMap (realizeNode · variant)

def realizeLineTemplateInner (lineTemplate : LineTemplate) (variant : ProgramVariant) :
    Option JString :=
  match lineTemplate.kind with
  | .normal => some (realizeLineTemplateNodes lineTemplate variant)
  | .excluded =>
    if variant ≠ .compiler then some (realizeLineTemplateNodes lineTemplate variant) else none
  | .hidden =>
    if variant = .compiler then some (realizeLineTemplateNodes lineTemplate variant) else none

/-- The line as it is realized, unless it is meant for another group or not for this variant. -/
def realizeLineTemplate (lineTemplate : LineTemplate) (variant : ProgramVariant) (group : Group) :
    Option JString :=
  if lineTemplate.group = none ∨ lineTemplate.group = some group then
    realizeLineTemplateInner lineTemplate variant
  else none

def realizeProgramTemplate (programTemplate : ProgramTemplate) (variant : ProgramVariant)
    (group : Group) : LineString :=
  ⟨programTemplate.lineTemplates.filterMap (realizeLineTemplate · variant group)⟩

end ExamGeneratorNg
