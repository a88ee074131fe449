import TemplateShape.Shape.Basic

/-! # Writing into a shape along a path

Every step of the path finds or makes the container it needs. A container that is there is never
lost: a step that does not fit an array drops the write, and a plain leaf leaves a container at its
place alone. -/

namespace TemplateShape.Shape

def containerOf : Step → Shape
  | .index _ => .array []
  | .key _ => .object []

/-- What a new place holds before the remaining steps are taken from it. -/
def freshPlace : (rest : List Step) → Shape
  | [] => printed
  | step :: _ => containerOf step

/-- The shape that a step is taken from: a plain value makes way for a container. -/
def opened (shape : Shape) (step : Step) : Shape :=
  if shape.isPlain then containerOf step else shape

def replaced (shape leaf : Shape) : Shape :=
  if shape.isContainer && leaf.isPlain then shape else leaf

/-- Writes `leaf` at the end of `path`. An array grows by `""` up to an index; an object takes an
index for the key with its decimal text; a key finds nothing in an array, and the write is
dropped. -/
def put (shape : Shape) (path : List Step) (leaf : Shape) : Shape :=
  match path with
  | [] => shape.replaced leaf
  | step :: rest =>
      match shape.opened step, step with
      | .object fields, step =>
          .object (Fields.alter step.text (freshPlace rest) (fun part => part.put rest leaf) fields)
      | .array items, .index i =>
          .array ((items.rightpad (i + 1) printed).modify i fun part => part.put rest leaf)
      | unfit, _ => unfit

/-- The key at which a write along `path` is dropped, if it is. -/
def blockedKey? (shape : Shape) (path : List Step) : Option String :=
  match path, shape with
  | .key name :: _, .array _ => some name
  | step :: rest, .object fields =>
      (Fields.find? fields step.text).bind fun part => part.blockedKey? rest
  | .index i :: rest, .array items => items[i]?.bind fun part => part.blockedKey? rest
  | _, _ => none

end TemplateShape.Shape
