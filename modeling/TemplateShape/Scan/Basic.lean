import TemplateShape.Text.Ascii
import TemplateShape.Text.Blank

/-! # Scanning the front of a text

A scanner takes a value off the front of a text and returns the rest, or fails. Scanners are
greedy and never give back what they took: a construct is written so that where one part ends, the
next cannot begin earlier. -/

namespace TemplateShape

/-- Takes a value off the front of a text. -/
abbrev Scan (α : Type) := StateT (List Char) Option α

namespace Scan

def literal (expected : List Char) : Scan Unit := fun text =>
  (expected.isPrefixOf? text).map fun rest => ((), rest)

def word (expected : String) : Scan Unit :=
  literal expected.toList

def optional (expected : List Char) : Scan Unit := fun text =>
  some ((), (expected.isPrefixOf? text).getD text)

/-- The longest run of characters of a class. -/
def run (p : Char → Bool) : Scan (List Char) := fun text =>
  some (text.takeWhile p, text.dropWhile p)

def run1 (p : Char → Bool) : Scan (List Char) := fun text =>
  if (text.takeWhile p).isEmpty then none else some (text.takeWhile p, text.dropWhile p)

def blanks : Scan Unit := fun text =>
  some ((), text.dropWhile Blank.isBlank)

def blanks1 : Scan Unit := do
  let _ ← run1 Blank.isBlank

/-- A name: a letter or underscore, then letters, digits and underscores. -/
def name : Scan String
  | [] => none
  | c :: text =>
      if Ascii.isNameStart c then
        some (String.ofList (c :: text.takeWhile Ascii.isWord), text.dropWhile Ascii.isWord)
      else none

/-- A run of letters, digits and underscores, which may start with a digit. -/
def wordRun : Scan String := do
  let cs ← run1 Ascii.isWord
  return String.ofList cs

def upTo {α : Type} (scan : Scan α) : (limit : Nat) → Scan (List α)
  | 0, text => some ([], text)
  | limit + 1, text =>
      match scan text with
      | some (a, rest) => (upTo scan limit rest).map fun (as, rest) => (a :: as, rest)
      | none => some ([], text)

/-- A scanner as often as it succeeds. Each success is to take a character, so the length of the
text bounds their number. -/
def many {α : Type} (scan : Scan α) : Scan (List α) := fun text =>
  upTo scan text.length text

/-- The text before the first place at which `stop` succeeds; `stop` is taken too. -/
def before (stop : Scan Unit) : Scan (List Char)
  | [] => (stop []).map fun (_, rest) => ([], rest)
  | c :: text =>
      match stop (c :: text) with
      | some (_, rest) => some ([], rest)
      | none => (before stop text).map fun (body, rest) => (c :: body, rest)

end Scan

end TemplateShape
