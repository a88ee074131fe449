import TemplateShape.Scan.Basic

/-! # Cutting a text along a scanner

The scanner is tried at every place from the left; where it succeeds the next try comes behind what
it took, so matches do not overlap. A scanner may look at the character before the place. -/

namespace TemplateShape.Scan

variable {α : Type}

/-- A scanner that may depend on the character before it. -/
abbrev Placed (α : Type) := Option Char → Scan α

def atWordStart : Option Char → Bool
  | some c => !Ascii.isWord c
  | none => true

def wordStart (scan : Scan α) : Placed α := fun previous =>
  if atWordStart previous then scan else fun _ => none

/-- The pieces of a text whose first `taken` characters belong to the last match: unmatched
characters and the values of matches, from left to right. -/
def piecesFrom (scan : Placed α) :
    (taken : Nat) → (previous : Option Char) → List Char → List (Char ⊕ α)
  | _, _, [] => []
  | taken + 1, _, c :: text => piecesFrom scan taken (some c) text
  | 0, previous, c :: text =>
      match scan previous (c :: text) with
      | some (a, rest) => .inr a :: piecesFrom scan (text.length - rest.length) (some c) text
      | none => .inl c :: piecesFrom scan 0 (some c) text

def pieces (scan : Placed α) (text : List Char) : List (Char ⊕ α) :=
  piecesFrom scan 0 none text

/-- The values of the matches in a text, from left to right. -/
def findAll (scan : Placed α) (text : List Char) : List α :=
  (pieces scan text).filterMap Sum.getRight?

def replaceAll (scan : Placed α) (replacement : List Char) (text : List Char) : List Char :=
  (pieces scan text).flatMap fun
    | .inl c => [c]
    | .inr _ => replacement

end TemplateShape.Scan
