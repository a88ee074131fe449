import TemplateShape.Json.Basic
import TemplateShape.Json.Fault
import TemplateShape.Decimal.Basic
import TemplateShape.Word

/-! # Reading JSON text

The grammar is strict JSON, with containers nested at most 127 deep. A repeated key keeps its first
place and takes its last value. An integer stays one when it fits 64 bits; any other number is a
float, computed from a 64-bit significand and a power of ten. -/

namespace TemplateShape.Json

/-- A reader takes a value off the front of a text and returns the rest. -/
abbrev Reader (α : Type) := List Char → Except Fault (α × List Char)

/-- The blanks between tokens. -/
def isSpace (c : Char) : Bool :=
  c == ' ' || c == '\t' || c == '\n' || c == '\r'

def skipSpace (text : List Char) : List Char :=
  text.dropWhile isSpace

/-! ## Words -/

/-- The remaining letters of `null`, `true` or `false`. -/
def readWord (value : Json) : List Char → Reader Json
  | [], text => .ok (value, text)
  | _ :: _, [] => .error (.at .endInValue [])
  | letter :: letters, c :: text =>
      if c = letter then readWord value letters text
      else .error (.behind .expectedIdent (c :: text))

/-! ## Numbers -/

/-- Appends digits to a number for as long as it stays below `bound`; returns the number and the
digits left over. -/
def appendDigits (bound : Nat) (n : Nat) : List Char → Nat × List Char
  | [] => (n, [])
  | digit :: digits =>
      let next := Nat.ofDigitChars 10 [digit] n
      if next < bound then appendDigits bound next digits else (n, digit :: digits)

def exponentBound : Nat := 0x80000000

/-- The greatest power of ten by which a float is scaled at once. -/
def greatestPower : Nat := 308

def powerOfTen (n : Nat) : Float :=
  Decimal.toFloat ⟨1, n⟩

/-- A float times a power of ten, a step of `10 ^ 308` at a time; none if the result is too
large. -/
def scale (x : Float) (power : Int) : Option Float :=
  if power.natAbs ≤ greatestPower then
    if 0 ≤ power then
      let product := x * powerOfTen power.natAbs
      if product.isInf then none else some product
    else some (x / powerOfTen power.natAbs)
  else if x == 0.0 then some x
  else if 0 ≤ power then none
  else scale (x / powerOfTen greatestPower) (power + greatestPower)
termination_by power.natAbs
decreasing_by simp only [greatestPower] at *; omega

def floatOfParts (negative : Bool) (significand : Nat) (power : Int) : Reader Number := fun rest =>
  match scale (Float.ofNat significand) power with
  | some x => .ok (.float (if negative then -x else x), rest)
  | none => .error (.at .numberOutOfRange rest)

/-- A number from its exponent's sign on. -/
def readExponent (negative : Bool) (significand : Nat) (power : Int) : Reader Number := fun text =>
  let (down, text) := Decimal.splitSign text
  let rest := text.dropWhile Char.isDigit
  match text.takeWhile Char.isDigit with
  | [] => .error (if text.isEmpty then .at .endInValue [] else .behind .invalidNumber text)
  | digits =>
      match appendDigits exponentBound 0 digits with
      | (written, []) =>
          floatOfParts negative significand (if down then power - written else power + written) rest
      | (_, _ :: unread) =>
          if significand = 0 ∨ down then .ok (.float (if negative then -0.0 else 0.0), rest)
          else .error (.at .numberOutOfRange (unread ++ rest))

/-- A number from its point on. -/
def readFraction (negative : Bool) (significand : Nat) (power : Int) : Reader Number := fun text =>
  let digits := text.takeWhile Char.isDigit
  let rest := text.dropWhile Char.isDigit
  if digits.isEmpty then
    .error (.behind (if rest.isEmpty then .endInValue else .invalidNumber) rest)
  else
    let (significand, unread) := appendDigits Word.unsignedBound significand digits
    let power := power - (digits.length - unread.length : Nat)
    match rest with
    | 'e' :: rest | 'E' :: rest => readExponent negative significand power rest
    | _ => floatOfParts negative significand power rest

/-- A number written without point and exponent: an integer where one of 64 bits exists. -/
def wholeNumber (negative : Bool) (n : Nat) : Number :=
  if negative then
    if n = 0 ∨ Word.signedBound < n then .float (-(Float.ofNat n)) else .int (-n)
  else .int n

/-- A number behind its sign. -/
def readNumber (negative : Bool) : Reader Number := fun text =>
  let digits := text.takeWhile Char.isDigit
  let rest := text.dropWhile Char.isDigit
  match digits with
  | [] => .error (if text.isEmpty then .at .endInValue [] else .behind .invalidNumber text)
  | '0' :: digit :: more => .error (.behind .invalidNumber (digit :: more ++ rest))
  | _ =>
      let (significand, unread) := appendDigits Word.unsignedBound 0 digits
      match rest with
      | '.' :: rest => readFraction negative significand unread.length rest
      | 'e' :: rest | 'E' :: rest => readExponent negative significand unread.length rest
      | _ =>
          if unread.isEmpty then .ok (wholeNumber negative significand, rest)
          else floatOfParts negative significand unread.length rest

/-! ## Strings -/

def hexValue? (c : Char) : Option Nat :=
  if '0' ≤ c ∧ c ≤ '9' then some (c.toNat - '0'.toNat)
  else if 'a' ≤ c ∧ c ≤ 'f' then some (c.toNat - 'a'.toNat + 10)
  else if 'A' ≤ c ∧ c ≤ 'F' then some (c.toNat - 'A'.toNat + 10)
  else none

def readUnit : Reader Nat := fun text =>
  if byteLength (text.take 4) < 4 then .error (.at .endInString [])
  else
    match text with
    | a :: b :: c :: d :: rest =>
        match hexValue? a, hexValue? b, hexValue? c, hexValue? d with
        | some a, some b, some c, some d => .ok (((a * 16 + b) * 16 + c) * 16 + d, rest)
        | _, _, _, _ => .error ⟨.invalidEscape, text, 4⟩
    | _ => .error ⟨.invalidEscape, text, 4⟩

/-- The first unit of a pair. -/
def isLeading (unit : Nat) : Bool :=
  0xD800 ≤ unit && unit ≤ 0xDBFF

def isTrailing (unit : Nat) : Bool :=
  0xDC00 ≤ unit && unit ≤ 0xDFFF

/-- A fault behind the first byte, or at the end of the string if there is none. -/
def endInStringOr (cause : Cause) (text : List Char) : Fault :=
  if text.isEmpty then .at .endInString [] else .behind cause text

/-- The second half of a pair whose first unit is `leading`. -/
def readTrailing (leading : Nat) : Reader Char := fun text =>
  match text with
  | '\\' :: 'u' :: rest => do
      let (trailing, rest) ← readUnit rest
      if isTrailing trailing then
        return (Char.ofNat (0x10000 + (leading - 0xD800) * 0x400 + (trailing - 0xDC00)), rest)
      else throw (.at .loneSurrogate rest)
  | '\\' :: rest => .error (endInStringOr .endOfHexEscape rest)
  | _ => .error (endInStringOr .endOfHexEscape text)

/-- A character given by its units, behind `\u`. -/
def readUnits : Reader Char := fun text => do
  let (unit, rest) ← readUnit text
  if isTrailing unit then throw (.at .loneSurrogate rest)
  else if isLeading unit then readTrailing unit rest
  else return (Char.ofNat unit, rest)

def escapedChar? : Char → Option Char
  | '"' => some '"'
  | '\\' => some '\\'
  | '/' => some '/'
  | 'b' => some '\x08'
  | 'f' => some '\x0c'
  | 'n' => some '\n'
  | 'r' => some '\r'
  | 't' => some '\t'
  | _ => none

/-- An escaped character, behind its backslash. -/
def readEscape : Reader Char
  | [] => .error (.at .endInString [])
  | 'u' :: rest => readUnits rest
  | letter :: rest =>
      match escapedChar? letter with
      | some c => .ok (c, rest)
      | none => .error (.behind .invalidEscape (letter :: rest))

/-- The next character of a string, or none at its closing quote. -/
def readStringChar : Reader (Option Char)
  | [] => .error (.at .endInString [])
  | '"' :: rest => .ok (none, rest)
  | '\\' :: rest => (readEscape rest).map fun (c, rest) => (some c, rest)
  | c :: rest =>
      if c.toNat < 0x20 then .error (.behind .controlCharacter (c :: rest))
      else .ok (some c, rest)

def readStringChars : (limit : Nat) → Reader (List Char)
  | 0, text => .error (.at .endInString text)
  | limit + 1, text => do
      match ← readStringChar text with
      | (none, rest) => return ([], rest)
      | (some c, rest) =>
          let (cs, rest) ← readStringChars limit rest
          return (c :: cs, rest)

def readString : Reader String := fun text =>
  (readStringChars (text.length + 1) text).map fun (cs, rest) => (String.ofList cs, rest)

/-! ## Arrays and objects -/

/-- The items of an array from one that must be there to the closing bracket, at most `limit` of
them. -/
def readItems (item : Reader Json) : (limit : Nat) → Reader (List Json)
  | 0, text => .error (.behind .expectedValue text)
  | limit + 1, text => do
      let (value, rest) ← item text
      match skipSpace rest with
      | [] => throw (.behind .endInList [])
      | ']' :: rest => return ([value], rest)
      | ',' :: rest =>
          match skipSpace rest with
          | [] => throw (.behind .endInValue [])
          | ']' :: rest => throw (.behind .trailingComma (']' :: rest))
          | text =>
              let (values, rest) ← readItems item limit text
              return (value :: values, rest)
      | text => throw (.behind .expectedListCommaOrEnd text)

def readArray (item : Reader Json) : Reader Json := fun text =>
  match skipSpace text with
  | [] => .error (.behind .endInList [])
  | ']' :: rest => .ok (.arr [], rest)
  | text => (readItems item text.length text).map fun (items, rest) => (.arr items, rest)

def readField (item : Reader Json) : Reader (String × Json)
  | '"' :: text => do
      let (key, rest) ← readString text
      match skipSpace rest with
      | [] => throw (.behind .endInObject [])
      | ':' :: rest =>
          let (value, rest) ← item rest
          return ((key, value), rest)
      | text => throw (.behind .expectedColon text)
  | text => .error (.behind .keyMustBeString text)

def readFields (item : Reader Json) : (limit : Nat) → Reader (List (String × Json))
  | 0, text => .error (.behind .keyMustBeString text)
  | limit + 1, text => do
      let (field, rest) ← readField item text
      match skipSpace rest with
      | [] => throw (.behind .endInObject [])
      | '}' :: rest => return ([field], rest)
      | ',' :: rest =>
          match skipSpace rest with
          | [] => throw (.behind .endInValue [])
          | '}' :: rest => throw (.behind .trailingComma ('}' :: rest))
          | text =>
              let (fields, rest) ← readFields item limit text
              return (field :: fields, rest)
      | text => throw (.behind .expectedObjectCommaOrEnd text)

def readObject (item : Reader Json) : Reader Json := fun text =>
  match skipSpace text with
  | [] => .error (.behind .endInObject [])
  | '}' :: rest => .ok (.obj [], rest)
  | text =>
      (readFields item text.length text).map fun (fields, rest) =>
        (.obj (Fields.ofList fields), rest)

/-! ## Values -/

/-- A value whose items and fields are read by `item?`; without it a container is nested too
deep. -/
def readValueWith (item? : Option (Reader Json)) : Reader Json := fun text =>
  match skipSpace text with
  | [] => .error (.behind .endInValue [])
  | 'n' :: rest => readWord .null ['u', 'l', 'l'] rest
  | 't' :: rest => readWord (.bool true) ['r', 'u', 'e'] rest
  | 'f' :: rest => readWord (.bool false) ['a', 'l', 's', 'e'] rest
  | '"' :: rest => (readString rest).map fun (s, rest) => (.str s, rest)
  | '[' :: rest =>
      match item? with
      | some item => readArray item rest
      | none => .error (.behind .recursionLimit ('[' :: rest))
  | '{' :: rest =>
      match item? with
      | some item => readObject item rest
      | none => .error (.behind .recursionLimit ('{' :: rest))
  | '-' :: rest => (readNumber true rest).map fun (n, rest) => (.num n, rest)
  | c :: rest =>
      if c.isDigit then (readNumber false (c :: rest)).map fun (n, rest) => (.num n, rest)
      else .error (.behind .expectedValue (c :: rest))

def readValue : (depth : Nat) → Reader Json
  | 0 => readValueWith none
  | depth + 1 => readValueWith (some (readValue depth))

def maxDepth : Nat := 127

def readDocument (text : List Char) : Except Fault Json := do
  let (value, rest) ← readValue maxDepth text
  match skipSpace rest with
  | [] => return value
  | rest => throw (.behind .trailingCharacters rest)

def parse (text : String) : Except ReadError Json :=
  (readDocument text.toList).mapError (·.toError text.toList)

end TemplateShape.Json
