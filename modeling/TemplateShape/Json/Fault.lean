/-! # What can be wrong with a JSON text

A fault is a cause and a place. The place is a number of bytes of the UTF-8 text; it is reported
as a line and a column, both counted in bytes. -/

namespace TemplateShape.Json

/-- The reasons for which a text is no JSON value. -/
inductive Cause
  | endInValue
  | endInString
  | endInList
  | endInObject
  | expectedValue
  | expectedIdent
  | expectedColon
  | expectedListCommaOrEnd
  | expectedObjectCommaOrEnd
  | keyMustBeString
  | trailingComma
  | trailingCharacters
  | invalidNumber
  | numberOutOfRange
  | controlCharacter
  | invalidEscape
  | loneSurrogate
  | endOfHexEscape
  | recursionLimit
  deriving DecidableEq

def Cause.message : Cause → String
  | .endInValue => "EOF while parsing a value"
  | .endInString => "EOF while parsing a string"
  | .endInList => "EOF while parsing a list"
  | .endInObject => "EOF while parsing an object"
  | .expectedValue => "expected value"
  | .expectedIdent => "expected ident"
  | .expectedColon => "expected `:`"
  | .expectedListCommaOrEnd => "expected `,` or `]`"
  | .expectedObjectCommaOrEnd => "expected `,` or `\x7d`"
  | .keyMustBeString => "key must be a string"
  | .trailingComma => "trailing comma"
  | .trailingCharacters => "trailing characters"
  | .invalidNumber => "invalid number"
  | .numberOutOfRange => "number out of range"
  | .controlCharacter => "control character (\\u0000-\\u001F) found while parsing a string"
  | .invalidEscape => "invalid escape"
  | .loneSurrogate => "lone leading surrogate in hex escape"
  | .endOfHexEscape => "unexpected end of hex escape"
  | .recursionLimit => "recursion limit exceeded"

/-- A fault met while reading: `rest` is the text not yet read, and the fault lies `past` bytes
into it, or at its end if it is shorter. -/
structure Fault where
  cause : Cause
  rest : List Char
  past : Nat

def Fault.at (cause : Cause) (rest : List Char) : Fault :=
  ⟨cause, rest, 0⟩

def Fault.behind (cause : Cause) (rest : List Char) : Fault :=
  ⟨cause, rest, 1⟩

def byteLength (text : List Char) : Nat :=
  text.foldr (fun c bytes => c.utf8Size + bytes) 0

/-- A line, counted from one, and the bytes between its start and the place. -/
structure Position where
  line : Nat
  column : Nat
  deriving DecidableEq

/-- The position of byte `place`, given that `text` starts at byte `offset` and that its first line
started at byte `start`. -/
def Position.ofByte (place : Nat) (offset line start : Nat) : List Char → Position
  | [] => ⟨line, place - start⟩
  | c :: rest =>
      if place ≤ offset then ⟨line, place - start⟩
      else if c = '\n' then ofByte place (offset + 1) (line + 1) (offset + 1) rest
      else ofByte place (offset + c.utf8Size) line start rest

/-- Why and where a text could not be read. -/
structure ReadError where
  cause : Cause
  position : Position
  deriving DecidableEq

def ReadError.message (e : ReadError) : String :=
  s!"{e.cause.message} at line {e.position.line} column {e.position.column}"

def Fault.toError (text : List Char) (fault : Fault) : ReadError :=
  let place := byteLength text - byteLength fault.rest + min fault.past (byteLength fault.rest)
  ⟨fault.cause, Position.ofByte place 0 1 0 text⟩

end TemplateShape.Json
