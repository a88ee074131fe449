import TemplateShape.Scan.Cut
import TemplateShape.Path

/-! # Tags of a template

The tags that show how a variable is used. A tag is recognised by its own text alone; whatever
else stands in a template is passed over. -/

namespace TemplateShape.Tag

open Scan

/-! ## Delimiters -/

def blockOpen : Scan Unit :=
  literal ['{', '%']

def blockClose : Scan Unit :=
  literal ['%', '}']

def outputOpen : Scan Unit :=
  literal ['{', '{']

def outputClose : Scan Unit :=
  literal ['}', '}']

/-- The start of a block tag up to the blanks behind its first word. -/
def blockStart (first : String) : Scan Unit := do
  blockOpen
  blanks
  word first
  blanks1

def blockEnd : Scan Unit := do
  blanks
  blockClose

/-- Filters behind a bar: anything but a closing brace, at least one character. -/
def filters : Scan Unit
  | '|' :: text => (run1 (· != '}') text).map fun (_, rest) => ((), rest)
  | text => some ((), text)

def outputEnd : Scan Unit := do
  blanks
  filters
  blanks
  outputClose

/-! ## Tags -/

/-- An assignment of a path to a name; the path is its value. -/
def assignment : Scan NamePath := do
  blockStart "set"
  let _ ← name
  blanks
  literal ['=']
  blanks
  let source ← namePath
  blockEnd
  return source

def output : Scan NamePath := do
  outputOpen
  blanks
  let path ← namePath
  outputEnd
  return path

/-- The header of a loop. -/
structure LoopHeader where
  item : String
  list : String
  deriving DecidableEq

def loopHeader : Scan LoopHeader := do
  blockStart "for"
  let item ← wordRun
  blanks1
  word "in"
  blanks1
  let list ← name
  blockEnd
  return ⟨item, list⟩

/-- The header of a loop over the entries of a mapping; the mapping is its value. -/
def entriesHeader : Scan String := do
  blockStart "for"
  let _ ← wordRun
  literal [',']
  blanks
  let _ ← wordRun
  blanks1
  word "in"
  blanks1
  let mapping ← name
  blanks
  literal ['.']
  blanks
  word "items"
  blanks
  literal ['(']
  blanks
  literal [')']
  blockEnd
  return mapping

/-- The expression of a condition: what stands between the first word of its tag and the tag's end.
There has to be a blank, and at least one character behind it, and no percent sign. -/
def condition : Scan (List Char) := do
  blockOpen
  blanks
  optional ['e', 'l']
  word "if"
  let between ← run (· != '%')
  blockClose
  match between with
  | blank :: _ :: _ =>
      if Blank.isBlank blank then return between.dropWhile Blank.isBlank else failure
  | _ => failure

/-- A path with an index behind it. -/
structure IndexedPath where
  base : NamePath
  digits : List Char
  deriving DecidableEq

def IndexedPath.index (path : IndexedPath) : Nat :=
  Decimal.ofDigits path.digits

def indexedOutput : Scan IndexedPath := do
  outputOpen
  blanks
  let base ← namePath
  blanks
  literal ['[']
  blanks
  let digits ← run1 Char.isDigit
  blanks
  literal [']']
  outputEnd
  return ⟨base, digits⟩

/-- A field of a variable that is printed. -/
structure PrintedField where
  owner : String
  field : String
  deriving DecidableEq

/-- A variable, a point and a field at the start of an output tag. -/
def printedField : Scan PrintedField := do
  outputOpen
  blanks
  let owner ← wordRun
  literal ['.']
  let field ← name
  return ⟨owner, field⟩

def loopClose : Scan Unit := do
  blockOpen
  blanks
  word "endfor"
  blockEnd

/-- A loop over a list with its body, which reaches to the first end of a loop. -/
structure Loop where
  header : LoopHeader
  body : List Char
  deriving DecidableEq

def loop : Scan Loop := do
  let header ← loopHeader
  let body ← before loopClose
  return ⟨header, body⟩

/-- The fields of the loop variable that the body prints, first printed first. -/
def Loop.fields (loop : Loop) : List String :=
  (((findAll (fun _ => printedField) loop.body).filter (·.owner == loop.header.item)).map
    PrintedField.field).eraseDups

end TemplateShape.Tag
