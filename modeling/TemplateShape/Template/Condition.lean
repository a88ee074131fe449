import TemplateShape.Scan.Cut
import TemplateShape.Path

/-! # Variables of a condition

The variables that an expression reads, found by its look and not by parsing: literals, numbers and
operators are struck out, and what still looks like a path is reported. The name of a called
function is reported too, with the variables of its arguments. -/

namespace TemplateShape.Condition

open Scan

/-! ## What is struck out -/

def literal (quote : Char) : Scan Unit := do
  Scan.literal [quote]
  let _ ← run (· != quote)
  Scan.literal [quote]

def startsWord : List Char → Bool
  | c :: _ => Ascii.isWord c
  | [] => false

/-- Digits, perhaps a point, and perhaps more digits. A number ends where a word begins or ends: if
its longest form does not, it gives back the digits behind the point, and then the point. -/
def number : Scan Unit := fun text =>
  let rest := text.dropWhile Char.isDigit
  if (text.takeWhile Char.isDigit).isEmpty then none
  else
    match rest with
    | '.' :: afterPoint =>
        let afterFraction := afterPoint.dropWhile Char.isDigit
        if (afterPoint.takeWhile Char.isDigit).isEmpty then
          some ((), if startsWord afterPoint then afterPoint else rest)
        else some ((), if startsWord afterFraction then afterPoint else afterFraction)
    | _ => if startsWord rest then none else some ((), rest)

/-- The long s, the only character beyond ASCII that folds to a letter of an operator. -/
def longS : Char := '\u017f'

def matchesLetter (letter c : Char) : Bool :=
  c.toLower == letter || (letter == 's' && c == longS)

def foldedWord : (expected : List Char) → Scan Unit
  | [], text => some ((), text)
  | _ :: _, [] => none
  | letter :: letters, c :: text =>
      if matchesLetter letter c then foldedWord letters text else none

/-- The operators, a longer one before its beginning. -/
def operators : List String :=
  ["and", "or", "not", "in", "is", "==", "!=", "<=", ">=", "<", ">"]

def operator : Scan Unit := do
  blanks1
  fun text => operators.findSome? fun expected =>
    (do foldedWord expected.toList; blanks1 : Scan Unit) text

/-- The text without literals and numbers, and with a blank for each operator. -/
def strike (text : List Char) : List Char :=
  let text := replaceAll (fun _ => literal '\x27') [] text
  let text := replaceAll (fun _ => literal '"') [] text
  let text := replaceAll (wordStart number) [] text
  replaceAll (fun _ => operator) [' '] text

/-! ## What is reported -/

def paths (text : List Char) : List NamePath :=
  findAll (wordStart namePath) text

/-- A call: the function's name, and its arguments up to the first closing parenthesis. -/
structure Call where
  name : String
  arguments : List Char

def call : Scan Call := do
  let name ← name
  blanks
  Scan.literal ['(']
  blanks
  let arguments ← run (· != ')')
  Scan.literal [')']
  return ⟨name, arguments⟩

def calls (text : List Char) : List Call :=
  findAll (wordStart call) text

/-- The variables of a text; `depth` says how deep calls inside the arguments of calls are looked
at. -/
def readsWithin (excluded : String → Bool) : (depth : Nat) → List Char → List NamePath
  | 0, _ => []
  | depth + 1, text =>
      let ofCall (c : Call) : List NamePath :=
        (if excluded c.name then [] else [.bare c.name]) ++
          if c.arguments.all Blank.isBlank then []
          else readsWithin excluded depth c.arguments
      (calls text).flatMap ofCall ++ (paths (strike text)).filter fun path => !excluded path.root

/-- The variables that an expression reads: those of its calls, then those that stand in it. Roots
that are excluded are left out; a variable that is read twice is listed twice. -/
def reads (excluded : String → Bool) (text : List Char) : List NamePath :=
  readsWithin excluded (text.length + 1) text

end TemplateShape.Condition
