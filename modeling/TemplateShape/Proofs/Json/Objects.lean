import TemplateShape.Json.Basic
import TemplateShape.Proofs.Fields

/-! # Objects in JSON values

An object has each key once, and keys lead from a value to the values inside it. -/

namespace TemplateShape.Json

/-- No object in a value has a key twice. -/
inductive Tidy : Json → Prop
  | null : Tidy .null
  | bool (value : Bool) : Tidy (.bool value)
  | num (value : Number) : Tidy (.num value)
  | str (text : String) : Tidy (.str text)
  | arr {items : List Json} (hitems : ∀ item ∈ items, Tidy item) : Tidy (.arr items)
  | obj {fields : Fields Json} (hdistinct : Fields.Distinct fields)
      (hfields : ∀ field ∈ fields, Tidy field.2) : Tidy (.obj fields)

theorem Tidy.distinct {fields : Fields Json} (h : (Json.obj fields).Tidy) : Fields.Distinct fields := by
  cases h with
  | obj hdistinct hfields => exact hdistinct

theorem Tidy.of_mem {fields : Fields Json} (h : (Json.obj fields).Tidy) {field : String × Json}
    (hfield : field ∈ fields) : field.2.Tidy := by
  cases h with
  | obj hdistinct hfields => exact hfields field hfield

def isEmptyObject : Json → Bool
  | .obj [] => true
  | _ => false

def get? (value : Json) : (keys : List String) → Option Json
  | [] => some value
  | key :: rest => (Fields.find? (value.fields?.getD []) key).bind (get? · rest)

end TemplateShape.Json
