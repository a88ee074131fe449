import TemplateShape.Form.Kind

/-! # Fields of a form

A form has a field for each variable. An object with few plain values has a field for each of them,
and every other structure is edited as JSON. -/

namespace TemplateShape.Form

inductive Control
  | line
  | lines
  | number
  | checkbox
  | json
  deriving DecidableEq

structure Field where
  /-- The dotted name under which the value is written back. -/
  name : String
  label : String
  kind : Kind
  control : Control
  value : Json
  /-- How far the field is indented: inner values one step, variables not at all. -/
  depth : Nat

/-- Objects with more keys than this are edited as JSON. -/
def inlineLimit : Nat := 5

/-- Text with more characters than this has several lines. -/
def lineLimit : Nat := 50

def isSimple : Json → Bool
  | .str _ | .num _ | .bool _ => true
  | .null | .arr _ | .obj _ => false

/-- Whether an object has a field for each of its values. -/
def isInline (fields : Fields Json) : Bool :=
  fields.length ≤ inlineLimit && fields.all fun (_, value) => isSimple value

def innerName (name key : String) : String :=
  if name.isEmpty then key else name ++ "." ++ key

/-- The field of a value inside an object: a checkbox for a flag, one line of text for all else. -/
def innerField (name key : String) (value : Json) : Field :=
  let full := innerName name key
  let (kind, control) : Kind × Control :=
    match value with
    | .bool _ => (.boolean, .checkbox)
    | _ => (.text, .line)
  { name := full, label := full, kind, control, value, depth := 1 }

/-- A field in which a structure is edited as JSON. -/
def jsonField (name structureName : String) (value : Json) : Field where
  name
  label := s!"{name} ({structureName})"
  kind := .json
  control := .json
  value
  depth := 0

def controlOf : Json → Control
  | .bool _ => .checkbox
  | .num _ => .number
  | .str text => if lineLimit < text.length then .lines else .line
  | _ => .line

def fieldsOfVariable (name : String) (value : Json) : List Field :=
  match value with
  | .arr _ => [jsonField name "Array" value]
  | .obj fields =>
      if isInline fields then fields.map fun (key, inner) => innerField name key inner
      else [jsonField name "Object" value]
  | _ =>
      [{ name, label := name, kind := Kind.ofValue value, control := controlOf value, value,
         depth := 0 }]

/-- The form for the values of all variables, in their order. -/
def ofValues (values : Fields Json) : List Field :=
  values.flatMap fun (name, value) => fieldsOfVariable name value

end TemplateShape.Form
