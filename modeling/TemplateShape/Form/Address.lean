import TemplateShape.Json.Basic
import TemplateShape.Path

/-! # Writing values under dotted names

A dotted name leads from a variable into its value. What is missing on the way, or is no container,
becomes an object; an array takes a part that spells an index. -/

namespace TemplateShape.Form

def parts (name : String) : List String :=
  (name.toList.splitOn '.').map String.ofList

def afterPlus : List Char → List Char
  | '+' :: digits => digits
  | digits => digits

/-- The index that a part spells: an optional plus sign and digits that a word can hold. -/
def index? (part : String) : Option Nat :=
  let digits := afterPlus part.toList
  if digits.isEmpty || !digits.all Char.isDigit then none
  else
    let n := Decimal.ofDigits digits
    if n < Word.unsignedBound then some n else none

/-- The value with `leaf` written at the place that the parts lead to. An array is filled up to the
index of a part, and its length then has to fit a word: the greatest index of all is out of reach. -/
def placeAt (leaf : Json) : (parts : List String) → Json → Json
  | [], _ => leaf
  | part :: rest, value =>
      match value, index? part with
      | .arr items, some i => .arr ((items.rightpad (i + 1) .null).modify i (placeAt leaf rest))
      | .obj fields, _ => .obj (Fields.alter part .null (placeAt leaf rest) fields)
      | _, _ => .obj [(part, placeAt leaf rest .null)]

/-- The values with `leaf` written under a dotted name. -/
def setValue (values : Fields Json) (name : String) (leaf : Json) : Fields Json :=
  match parts name with
  | [] => values
  | root :: rest => Fields.alter root .null (placeAt leaf rest) values

end TemplateShape.Form
