import TemplateShape.Json.Writer
import TemplateShape.Path

/-! # Shapes

A shape is the sample value that stands for a variable: text and flags for plain values, objects
and arrays for what a template shows of a structure. -/

namespace TemplateShape

/-- A sample value. -/
inductive Shape
  | object (fields : List (String × Shape))
  | array (items : List Shape)
  | text (value : String)
  | flag (value : Bool)

namespace Shape

instance : Inhabited Shape := ⟨.text ""⟩

/-- The sample of a value that is printed. -/
def printed : Shape := .text ""

/-- The sample of a value that is only tested. -/
def tested : Shape := .flag true

def isPlain : Shape → Bool
  | .text _ | .flag _ => true
  | .object _ | .array _ => false

def isContainer (shape : Shape) : Bool :=
  !shape.isPlain

/-- An array of plain values: it says that there is a list and nothing about its items. -/
def isPlainList : Shape → Bool
  | .array items => items.all isPlain
  | _ => false

/-- A container replaces a plain value, and nothing else replaces anything. -/
def yieldsTo (existing incoming : Shape) : Bool :=
  existing.isPlain && incoming.isContainer

/-! ## Parts -/

def fields? : Shape → Option (Fields Shape)
  | .object fields => some fields
  | _ => none

def items? : Shape → Option (List Shape)
  | .array items => some items
  | _ => none

def text? : Shape → Option String
  | .text value => some value
  | _ => none

def flag? : Shape → Option Bool
  | .flag value => some value
  | _ => none

def child? : Step → Shape → Option Shape
  | .key name, .object fields => Fields.find? fields name
  | .index i, .array items => items[i]?
  | _, _ => none

def get? (shape : Shape) : (path : List Step) → Option Shape
  | [] => some shape
  | step :: rest => (child? step shape).bind (get? · rest)

/-- Why a part is missing. -/
inductive AccessError
  | keyNotFound
  | indexOutOfBounds

def AccessError.message : AccessError → String
  | .keyNotFound => "object key not found"
  | .indexOutOfBounds => "array index out of bounds"

def get (shape : Shape) : (path : List Step) → Except AccessError Shape
  | [] => .ok shape
  | step :: rest =>
      match child? step shape, step with
      | some child, _ => get child rest
      | none, .key _ => .error .keyNotFound
      | none, .index _ => .error .indexOutOfBounds

/-! ## JSON -/

mutual

def toJson : Shape → Json
  | .object fields => .obj (fieldsToJson fields)
  | .array items => .arr (itemsToJson items)
  | .text value => .str value
  | .flag value => .bool value

def fieldsToJson : List (String × Shape) → List (String × Json)
  | [] => []
  | (key, shape) :: rest => (key, shape.toJson) :: fieldsToJson rest

def itemsToJson : List Shape → List Json
  | [] => []
  | shape :: rest => shape.toJson :: itemsToJson rest

end

def render (shape : Shape) : String :=
  shape.toJson.render

mutual

/-- The shape with a JSON value; a value with a number or a null in it has none. -/
def ofJson? : Json → Option Shape
  | .obj fields => (fieldsOfJson? fields).map .object
  | .arr items => (itemsOfJson? items).map .array
  | .str value => some (.text value)
  | .bool value => some (.flag value)
  | .num _ | .null => none

def fieldsOfJson? : List (String × Json) → Option (List (String × Shape))
  | [] => some []
  | (key, value) :: rest => do
      let shape ← ofJson? value
      let shapes ← fieldsOfJson? rest
      return (key, shape) :: shapes

def itemsOfJson? : List Json → Option (List Shape)
  | [] => some []
  | value :: rest => do
      let shape ← ofJson? value
      let shapes ← itemsOfJson? rest
      return shape :: shapes

end

theorem fieldsToJson_eq_map (fields : List (String × Shape)) :
    fieldsToJson fields = fields.map fun (key, shape) => (key, shape.toJson) := by
  induction fields with
  | nil => rfl
  | cons field rest ih => simp [fieldsToJson, ih]

theorem itemsToJson_eq_map (items : List Shape) : itemsToJson items = items.map toJson := by
  induction items with
  | nil => rfl
  | cons item rest ih => simp [itemsToJson, ih]

mutual

theorem ofJson?_toJson (shape : Shape) : ofJson? shape.toJson = some shape := by
  cases shape with
  | object fields => simp [toJson, ofJson?, fieldsOfJson?_fieldsToJson fields]
  | array items => simp [toJson, ofJson?, itemsOfJson?_itemsToJson items]
  | text value => rfl
  | flag value => rfl

theorem fieldsOfJson?_fieldsToJson (fields : List (String × Shape)) :
    fieldsOfJson? (fieldsToJson fields) = some fields := by
  match fields with
  | [] => rfl
  | (key, shape) :: rest =>
      simp [fieldsToJson, fieldsOfJson?, ofJson?_toJson shape, fieldsOfJson?_fieldsToJson rest]

theorem itemsOfJson?_itemsToJson (items : List Shape) :
    itemsOfJson? (itemsToJson items) = some items := by
  match items with
  | [] => rfl
  | shape :: rest =>
      simp [itemsToJson, itemsOfJson?, ofJson?_toJson shape, itemsOfJson?_itemsToJson rest]

end

end Shape

end TemplateShape
