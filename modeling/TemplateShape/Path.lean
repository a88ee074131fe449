import TemplateShape.Scan.Basic
import TemplateShape.Decimal.Basic
import TemplateShape.Word

/-! # Dotted paths

A path leads from a root name to a place inside its value: `user.items.0.name`. -/

namespace TemplateShape

/-! ## Steps -/

/-- One step of a path: a key of an object or an index of an array. -/
inductive Step
  | key (name : String)
  | index (i : Nat)
  deriving DecidableEq

namespace Step

def text : Step → String
  | .key name => name
  | .index i => String.ofList (Decimal.digitsOf i)

/-- A step: digits are an index, a name is a key. Digits that no word can hold are no step. -/
def scan : Scan Step := fun text =>
  let digits := text.takeWhile Char.isDigit
  if digits.isEmpty then (Scan.name text).map fun (name, rest) => (.key name, rest)
  else if Decimal.ofDigits digits < Word.unsignedBound then
    some (.index (Decimal.ofDigits digits), text.dropWhile Char.isDigit)
  else none

end Step

/-! ## Paths of names -/

/-- A root name and the names that follow it. -/
structure NamePath where
  root : String
  rest : List String
  deriving DecidableEq

namespace NamePath

def bare (name : String) : NamePath :=
  ⟨name, []⟩

def isBare (path : NamePath) : Bool :=
  path.rest.isEmpty

def depth (path : NamePath) : Nat :=
  path.rest.length + 1

/-- The names as keys, without the root. -/
def below (path : NamePath) : List Step :=
  path.rest.map .key

def steps (path : NamePath) : List Step :=
  .key path.root :: path.below

def text (path : NamePath) : String :=
  ".".intercalate (path.root :: path.rest)

end NamePath

namespace Scan

def afterPoint {α : Type} (scan : Scan α) : Scan α := do
  literal ['.']
  scan

def namePath : Scan NamePath := do
  let root ← name
  let rest ← many (afterPoint name)
  return ⟨root, rest⟩

def steps : Scan (List Step) := do
  let root ← name
  let rest ← many (afterPoint Step.scan)
  return .key root :: rest

end Scan

namespace Path

/-- The steps a text spells, blanks at its ends aside. The first is a name, the others are names or
indices. -/
def parse? (text : String) : Option (List Step) :=
  match Scan.steps (Blank.trim text.toList) with
  | some (steps, []) => some steps
  | _ => none

def render (steps : List Step) : String :=
  ".".intercalate (steps.map Step.text)

end Path

end TemplateShape
