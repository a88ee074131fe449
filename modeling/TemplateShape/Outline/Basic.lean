import TemplateShape.Shape.Write

/-! # Outlines

The outline of a context: the shape of each of its variables, in the order in which the variables
were first seen. -/

namespace TemplateShape

/-- Shapes by the names of variables, first seen first. -/
structure Outline where
  entries : Fields Shape := []

/-- What happens when a shape is found for a name that has one. -/
inductive Policy
  /-- The first shape stays. -/
  | keep
  /-- A container replaces a plain value. -/
  | upgrade
  /-- A plain value is replaced, and so is an array of plain values. -/
  | restructure
  deriving DecidableEq

def Policy.replaces : Policy → (existing incoming : Shape) → Bool
  | .keep, _, _ => false
  | .upgrade, existing, incoming => existing.yieldsTo incoming
  | .restructure, existing, _ => existing.isPlain || existing.isPlainList

namespace Outline

def find? (outline : Outline) (name : String) : Option Shape :=
  Fields.find? outline.entries name

def contains (outline : Outline) (name : String) : Bool :=
  (outline.find? name).isSome

def names (outline : Outline) : List String :=
  Fields.names outline.entries

def size (outline : Outline) : Nat :=
  outline.entries.length

def isEmpty (outline : Outline) : Bool :=
  outline.entries.isEmpty

/-- Learns a shape for a name: a new name gets it, and one that has a shape gets it if the policy
says so. -/
def learn (outline : Outline) (policy : Policy) (name : String) (shape : Shape) : Outline where
  entries := Fields.alter name shape
    (fun existing => if policy.replaces existing shape then shape else existing) outline.entries

/-- Writes `leaf` at the end of a path whose first step is the name of a variable; any other path
does nothing. -/
def put (outline : Outline) (path : List Step) (leaf : Shape) : Outline :=
  match path with
  | .key root :: rest =>
      ⟨Fields.alter root (Shape.freshPlace rest) (fun shape => shape.put rest leaf)
        outline.entries⟩
  | _ => outline

def restrict (outline : Outline) (names : List String) : Outline where
  entries := outline.entries.filter fun (name, _) => names.contains name

def values (outline : Outline) : Fields Json :=
  outline.entries.map fun (name, shape) => (name, shape.toJson)

def toJson (outline : Outline) : Json :=
  .obj outline.values

def render (outline : Outline) : String :=
  outline.toJson.render

end Outline

end TemplateShape
