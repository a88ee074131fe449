import TemplateShape.Fields

/-! # JSON values

Objects keep the order in which their keys were written. A number is an integer or a float, and
keeps the one it was read as. -/

namespace TemplateShape

/-- A JSON number. Integers that are read lie between `-2 ^ 63` and `2 ^ 64 - 1`; floats are
finite. -/
inductive Json.Number
  | int (value : Int)
  | float (value : Float)

inductive Json
  | null
  | bool (value : Bool)
  | num (value : Json.Number)
  | str (text : String)
  | arr (items : List Json)
  | obj (fields : List (String × Json))

namespace Json

instance : Inhabited Json := ⟨.null⟩

def fields? : Json → Option (Fields Json)
  | .obj fields => some fields
  | _ => none

end Json

end TemplateShape
