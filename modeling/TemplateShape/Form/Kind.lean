import TemplateShape.Json.Reader
import TemplateShape.Text.Ascii
import TemplateShape.Text.Blank
import TemplateShape.Text.Quoted

/-! # Kinds of input

What may be typed into a field, and the value that it stands for. -/

namespace TemplateShape.Form

inductive Kind
  | text
  | number
  | boolean
  | json
  deriving DecidableEq

def Kind.ofValue : Json → Kind
  | .bool _ => .boolean
  | .num _ => .number
  | .obj _ | .arr _ => .json
  | .str _ | .null => .text

/-- Why an input stands for no value. -/
inductive InputError
  | notNumber (input : String)
  | notBoolean (input : String)
  | notJson (input : String) (reason : Json.ReadError)

def InputError.message : InputError → String
  | .notNumber input => s!"'{input}' is not a number"
  | .notBoolean input => s!"'{input}' is not a boolean"
  | .notJson input reason => s!"invalid JSON {Text.quoted input}: {reason.message}"

/-! ## Numbers -/

/-- The integer that a text spells, if a word can hold it: an optional sign and digits. -/
def integer? (text : List Char) : Option Int :=
  let (negative, digits) := Decimal.splitSign text
  if digits.isEmpty || !digits.all Char.isDigit then none
  else
    let n : Int := if negative then -(Decimal.ofDigits digits : Int) else Decimal.ofDigits digits
    if Word.fitsSigned n then some n else none

/-- The exponent that a text spells: nothing, or a letter, an optional sign and digits. -/
def exponent? : List Char → Option Int
  | [] => some 0
  | letter :: text =>
      let (negative, digits) := Decimal.splitSign text
      if (letter == 'e' || letter == 'E') && !digits.isEmpty && digits.all Char.isDigit then
        some (if negative then -(Decimal.ofDigits digits : Int) else Decimal.ofDigits digits)
      else none

def splitFraction : List Char → List Char × List Char
  | '.' :: text => (text.takeWhile Char.isDigit, text.dropWhile Char.isDigit)
  | text => ([], text)

/-- The decimal that a text without sign spells: digits, a point, digits and an exponent, of which
the point and the exponent may be missing, and the digits on one side of the point. -/
def decimal? (text : List Char) : Option Decimal :=
  let whole := text.takeWhile Char.isDigit
  let (fraction, rest) := splitFraction (text.dropWhile Char.isDigit)
  if whole.isEmpty && fraction.isEmpty then none
  else
    (exponent? rest).map fun exponent =>
      ⟨Decimal.ofDigits (whole ++ fraction), exponent - fraction.length⟩

/-- The finite float nearest to the decimal that a text spells. -/
def float? (text : List Char) : Option Float :=
  let (negative, digits) := Decimal.splitSign text
  (decimal? digits).bind fun d =>
    let x := d.toFloat
    if x.isFinite then some (if negative then -x else x) else none

/-- The value of a number field. A field that was cleared has an empty text. -/
def readNumber (raw : String) : Except InputError Json :=
  let text := Blank.trim raw.toList
  if text.isEmpty then .ok (.str "")
  else
    match integer? text, float? text with
    | some n, _ => .ok (.num (.int n))
    | none, some x => .ok (.num (.float x))
    | none, none => .error (.notNumber raw)

/-! ## Flags -/

def trueWords : List String :=
  ["true", "on", "1", "checked"]

def falseWords : List String :=
  ["false", "off", "0", ""]

/-- The value of a flag field, in whatever case. -/
def readBoolean (raw : String) : Except InputError Json :=
  let word := Ascii.lower (String.ofList (Blank.trim raw.toList))
  if trueWords.contains word then .ok (.bool true)
  else if falseWords.contains word then .ok (.bool false)
  else .error (.notBoolean raw)

/-! ## Values -/

def Kind.read (kind : Kind) (raw : String) : Except InputError Json :=
  match kind with
  | .text => .ok (.str raw)
  | .number => readNumber raw
  | .boolean => readBoolean raw
  | .json => (Json.parse raw).mapError (.notJson raw)

end TemplateShape.Form
