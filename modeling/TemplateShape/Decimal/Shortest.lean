import TemplateShape.Decimal.Basic

/-! # The fewest digits that read back

A binary64 value stands for every real that rounds to it: an interval around the value, whose ends
belong to it when the significand is even. Among the decimals in that interval the shortest are
those on the coarsest grid `10 ^ k`, and of these the nearest to the value is chosen. -/

namespace TemplateShape.Decimal

/-- The exact value `significand * 2 ^ exponent` of a positive float. -/
structure Binary where
  significand : Nat
  exponent : Int

namespace Binary

/-- The weight of a significand's leading bit; 52 bits follow it. -/
def leadingBit : Nat := 0x10000000000000

def exponentCodes : Nat := 0x800

def leastExponent : Int := -1074

/-- The value of a finite float without its sign. -/
def ofFloat (x : Float) : Binary :=
  let bits := x.toBits.toNat
  let fraction := bits % leadingBit
  let code := bits / leadingBit % exponentCodes
  if code = 0 then ⟨fraction, leastExponent⟩
  else ⟨leadingBit + fraction, leastExponent + (code - 1 : Nat)⟩

/-- Whether the next smaller float is half as far away as the next larger one. -/
def isPowerBoundary (x : Binary) : Bool :=
  x.significand == leadingBit && x.exponent != leastExponent

end Binary

/-- The reals that round to a float, as fractions over one denominator. -/
structure Interval where
  low : Nat
  value : Nat
  high : Nat
  denominator : Nat
  closed : Bool

namespace Interval

/-- The interval of a float; its ends lie halfway to the neighbours. -/
def ofBinary (x : Binary) : Interval :=
  let scale := Nat.pow 2 (x.exponent - 2).toNat
  { low := (4 * x.significand - if x.isPowerBoundary then 1 else 2) * scale
    value := 4 * x.significand * scale
    high := (4 * x.significand + 2) * scale
    denominator := Nat.pow 2 (2 - x.exponent).toNat
    closed := x.significand % 2 == 0 }

/-- The same interval in units of `10 ^ k`. -/
def scaled (i : Interval) (k : Int) : Interval :=
  let up := Nat.pow 10 (-k).toNat
  { low := i.low * up
    value := i.value * up
    high := i.high * up
    denominator := i.denominator * Nat.pow 10 k.toNat
    closed := i.closed }

def contains (i : Interval) (n : Nat) : Bool :=
  let point := n * i.denominator
  if i.closed then i.low ≤ point && point ≤ i.high else i.low < point && point < i.high

/-- Whether the value is nearer to the whole number above than to `below`, the one under it; halfway
the even one counts as nearer. -/
def isNearerAbove (i : Interval) (below : Nat) : Bool :=
  let rest := 2 * (i.value - below * i.denominator)
  i.denominator < rest || (rest == i.denominator && below % 2 == 1)

/-- The whole number of the interval nearest to the value, if the interval holds one of the two
around the value. -/
def wholePoint? (i : Interval) : Option Nat :=
  let below := i.value / i.denominator
  match i.contains below, i.contains (below + 1) with
  | true, true => some (if i.isNearerAbove below then below + 1 else below)
  | true, false => some below
  | false, true => some (below + 1)
  | false, false => none

def leadingPower (i : Interval) : Int :=
  if i.denominator ≤ i.value then (digitsOf (i.value / i.denominator)).length - 1
  else -(digitsOf ((i.denominator - 1) / i.value)).length

end Interval

/-- Seventeen digits tell any two floats apart. -/
def enoughDigits : Nat := 17

/-- The shortest decimal that reads back as the positive finite float `x`, and of those the nearest
to it. -/
def ofFloat (x : Float) : Decimal :=
  let interval := Interval.ofBinary (Binary.ofFloat x)
  let onGrid (places : Nat) : Option Decimal :=
    let k := interval.leadingPower - places
    (interval.scaled k).wholePoint?.map fun n => ⟨n, k⟩
  match (List.range enoughDigits).findSome? onGrid with
  | some d => d.normalize enoughDigits
  | none => ⟨0, 0⟩

end TemplateShape.Decimal
