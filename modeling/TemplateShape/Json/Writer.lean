import TemplateShape.Json.Basic
import TemplateShape.Decimal.Shortest
import TemplateShape.Word

/-! # Compact JSON text

No blanks, keys in their order. A float has the fewest digits that read back. -/

namespace TemplateShape.Json

/-! ## Strings -/

def hexDigit (n : Nat) : Char :=
  Nat.digitChar n

/-- How a character stands inside a string: quotes, backslashes and control characters are
escaped, everything else stands for itself. -/
def escapeChar (c : Char) : List Char :=
  match c with
  | '"' => ['\\', '"']
  | '\\' => ['\\', '\\']
  | '\x08' => ['\\', 'b']
  | '\t' => ['\\', 't']
  | '\n' => ['\\', 'n']
  | '\x0c' => ['\\', 'f']
  | '\r' => ['\\', 'r']
  | c =>
      if c.toNat < 0x20 then
        ['\\', 'u', '0', '0', hexDigit (c.toNat / 16), hexDigit (c.toNat % 16)]
      else [c]

def stringChars (text : String) : List Char :=
  '"' :: (text.toList.flatMap escapeChar ++ ['"'])

/-! ## Numbers -/

/-- Which powers of ten are written out in full, from `least` to `greatest`. -/
structure Positional where
  least : Int
  greatest : Int

/-- Floats from `0.00001` up to but not including `1e+16` are written in full. -/
def positional : Positional where
  least := -5
  greatest := 15

/-- Digits around a point, the first digit having weight `10 ^ power`; there is always a digit on
either side of the point. -/
def pointChars (digits : List Char) (power : Int) : List Char :=
  if power < 0 then
    '0' :: '.' :: (List.replicate (-power - 1).toNat '0' ++ digits)
  else
    let whole := power.toNat + 1
    let after := digits.drop whole
    (digits.take whole).rightpad whole '0' ++ '.' :: (if after.isEmpty then ['0'] else after)

/-- A digit, the other digits after a point, and a signed exponent. -/
def exponentChars (digits : List Char) (power : Int) : List Char :=
  let fraction := digits.drop 1
  digits.take 1 ++ (if fraction.isEmpty then [] else '.' :: fraction) ++
    'e' :: (if power < 0 then '-' else '+') :: Decimal.digitsOf power.natAbs

def decimalChars (d : Decimal) : List Char :=
  let digits := Decimal.digitsOf d.coefficient
  if positional.least ≤ d.leadingPower ∧ d.leadingPower ≤ positional.greatest then
    pointChars digits d.leadingPower
  else exponentChars digits d.leadingPower

/-- The text of a finite float; zero keeps its sign. -/
def floatChars (x : Float) : List Char :=
  let sign := if x.toBits.toNat < Word.signedBound then [] else ['-']
  sign ++ if x == 0.0 then ['0', '.', '0'] else decimalChars (Decimal.ofFloat x)

def intChars : Int → List Char
  | .ofNat n => Decimal.digitsOf n
  | .negSucc n => '-' :: Decimal.digitsOf (n + 1)

def Number.chars : Number → List Char
  | .int n => intChars n
  | .float x => floatChars x

/-! ## Values -/

def commas (pieces : List (List Char)) : List Char :=
  [','].intercalate pieces

mutual

def chars : Json → List Char
  | .null => ['n', 'u', 'l', 'l']
  | .bool true => ['t', 'r', 'u', 'e']
  | .bool false => ['f', 'a', 'l', 's', 'e']
  | .num n => n.chars
  | .str text => stringChars text
  | .arr items => '[' :: (commas (itemChars items) ++ [']'])
  | .obj fields => '{' :: (commas (fieldChars fields) ++ ['}'])

def itemChars : List Json → List (List Char)
  | [] => []
  | item :: rest => item.chars :: itemChars rest

def fieldChars : List (String × Json) → List (List Char)
  | [] => []
  | (key, value) :: rest => (stringChars key ++ ':' :: value.chars) :: fieldChars rest

end

def render (value : Json) : String :=
  String.ofList value.chars

theorem itemChars_eq_map (items : List Json) : itemChars items = items.map chars := by
  induction items with
  | nil => rfl
  | cons item rest ih => simp [itemChars, ih]

theorem fieldChars_eq_map (fields : List (String × Json)) :
    fieldChars fields = fields.map fun (key, value) => stringChars key ++ ':' :: value.chars := by
  induction fields with
  | nil => rfl
  | cons field rest ih => simp [fieldChars, ih]

end TemplateShape.Json
