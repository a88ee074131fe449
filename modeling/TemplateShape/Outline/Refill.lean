import TemplateShape.Outline.Basic

/-! # Refilling shapes with earlier values

When a template has changed, its new shapes say which values there are, and the values that were
entered before fill them wherever the structure still fits. -/

namespace TemplateShape

namespace Shape

mutual

/-- The value of a shape, filled from the value that was there. An array that was there is kept
whole; an object has exactly the shape's keys; a plain value takes whatever was there. -/
def refill : Shape → Option Json → Json
  | .array items, existing =>
      match existing with
      | some (.arr values) => .arr values
      | _ => .arr (itemsToJson items)
  | .object fields, existing => .obj (refillFields fields ((existing.bind Json.fields?).getD []))
  | .text value, existing => existing.getD (.str value)
  | .flag value, existing => existing.getD (.bool value)

/-- The values of fields, each filled from the field of its name, or with its sample if there is no
such field. -/
def refillFields : List (String × Shape) → Fields Json → List (String × Json)
  | [], _ => []
  | (key, shape) :: rest, existing =>
      (key, match Fields.find? existing key with
        | some value => shape.refill (some value)
        | none => shape.toJson) :: refillFields rest existing

end

end Shape

/-- The values of an outline, each filled from the value of its name; values of other names are
dropped. -/
def Outline.refill (outline : Outline) (existing : Fields Json) : Fields Json :=
  outline.entries.map fun (name, shape) => (name, shape.refill (Fields.find? existing name))

end TemplateShape
