/-! # Decimal numbers

A non-negative number written as a coefficient and a power of ten, and the float nearest to it. -/

namespace TemplateShape

/-- The number `coefficient * 10 ^ exponent`. -/
structure Decimal where
  coefficient : Nat
  exponent : Int

namespace Decimal

/-- The decimal digits of a number, most significant first. -/
def digitsOf (n : Nat) : List Char :=
  Nat.toDigits 10 n

def ofDigits (digits : List Char) : Nat :=
  Nat.ofDigitChars 10 digits 0

theorem ofDigits_digitsOf (n : Nat) : ofDigits (digitsOf n) = n :=
  Nat.ofDigitChars_toDigits (by decide) (by decide)

/-- Whether a text starts with a minus sign, and the text behind its sign if it has one. -/
def splitSign : List Char → Bool × List Char
  | '+' :: text => (false, text)
  | '-' :: text => (true, text)
  | text => (false, text)

/-- The power of ten of the leading digit, for a positive number. -/
def leadingPower (d : Decimal) : Int :=
  d.exponent + (digitsOf d.coefficient).length - 1

/-- A number that starts this many places left of the point is above every finite float, and one
that starts this many places right of it is below half of the least positive one. -/
def floatPlaces : Int := 400

/-- The float nearest to the number, a tie going to the even neighbour. -/
def toFloat (d : Decimal) : Float :=
  if d.coefficient = 0 ∨ d.leadingPower < -floatPlaces then 0.0
  else if floatPlaces < d.leadingPower then 1.0 / 0.0
  else Float.ofScientific d.coefficient (d.exponent < 0) d.exponent.natAbs

/-- The same number without zeros at the end of its coefficient, dropping at most `limit`. -/
def normalize (d : Decimal) : (limit : Nat) → Decimal
  | 0 => d
  | limit + 1 =>
      if d.coefficient % 10 = 0 then
        normalize ⟨d.coefficient / 10, d.exponent + 1⟩ limit
      else d

end Decimal

end TemplateShape
