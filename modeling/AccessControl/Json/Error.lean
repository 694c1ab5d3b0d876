import AccessControl.Decimal.Shortest
import AccessControl.Text.Quoted
import AccessControl.Text.Utf8

/-!
Why a document cannot be read. A reader stops with a fault and the bytes that it has not consumed;
the position is computed from these, as lines from one and bytes of the line from zero.
-/

namespace AccessControl.Json

/-- What a document holds where something else is expected. -/
inductive Found
  | null
  | bool (value : Bool)
  | unsigned (value : Nat)
  /-- An integer below zero, without its sign. -/
  | negative (magnitude : Nat)
  /-- Any other number, as the bits of its binary64 encoding. -/
  | float (bits : UInt64)
  | text (bytes : Bytes)
  | sequence
  | map
  deriving DecidableEq

/-- Why a document cannot be read. -/
inductive Fault
  | endInValue
  | endInString
  | endInObject
  | endInList
  | expectedValue
  | expectedWord
  | expectedColon
  | expectedCommaOrBracket
  | expectedCommaOrBrace
  | keyMustBeString
  | trailingComma
  | trailingCharacters
  | invalidNumber
  | numberOutOfRange
  | invalidEscape
  | unpairedSurrogate
  | unfinishedSurrogate
  | controlCharacter
  /-- Something of another kind than expected. -/
  | mistyped (found : Found) (expected : String)
  /-- Something of the right kind that the expected type does not hold. -/
  | misvalued (found : Found) (expected : String)
  | duplicateField (name : String)
  | unknownVariant (name : Bytes) (expected : List String)
  deriving DecidableEq

/-- The kinds of faults: of form, of an early end, and of content. -/
inductive Category
  | form
  | ending
  | content
  deriving DecidableEq

namespace Fault

def category : Fault → Category
  | endInValue | endInString | endInObject | endInList => .ending
  | mistyped .. | misvalued .. | duplicateField _ | unknownVariant .. => .content
  | _ => .form

end Fault

/-! ### Messages -/

/-- Numbers in messages: positional from five places after the point to sixteen digits before it,
with the sign of the exponent written otherwise. -/
def numberLayout : Decimal.Layout := ⟨-5, 15, "e+", "e-"⟩

/-- What was found, as messages put it. -/
def Found.describe : Found → String
  | null => "null"
  | bool value => s!"boolean `{value}`"
  | unsigned value => s!"integer `{value}`"
  | negative magnitude => s!"integer `-{magnitude}`"
  | float bits => s!"floating point `{numberLayout.renderBits bits}`"
  | text bytes => s!"string {Quoted.quote (Utf8.decodeLossy bytes)}"
  | sequence => "sequence"
  | map => "map"

def Fault.message : Fault → String
  | endInValue => "EOF while parsing a value"
  | endInString => "EOF while parsing a string"
  | endInObject => "EOF while parsing an object"
  | endInList => "EOF while parsing a list"
  | expectedValue => "expected value"
  | expectedWord => "expected ident"
  | expectedColon => "expected `:`"
  | expectedCommaOrBracket => "expected `,` or `]`"
  | expectedCommaOrBrace => "expected `,` or `\x7d`"
  | keyMustBeString => "key must be a string"
  | trailingComma => "trailing comma"
  | trailingCharacters => "trailing characters"
  | invalidNumber => "invalid number"
  | numberOutOfRange => "number out of range"
  | invalidEscape => "invalid escape"
  | unpairedSurrogate => "lone leading surrogate in hex escape"
  | unfinishedSurrogate => "unexpected end of hex escape"
  | controlCharacter => "control character (\\u0000-\\u001F) found while parsing a string"
  | mistyped found expected => s!"invalid type: {found.describe}, expected {expected}"
  | misvalued found expected => s!"invalid value: {found.describe}, expected {expected}"
  | duplicateField name => s!"duplicate field `{name}`"
  | unknownVariant name expected =>
    s!"unknown variant `{Utf8.decodeLossy name}`, expected one of " ++
      String.intercalate ", " (expected.map fun variant => s!"`{variant}`")

/-! ### Positions -/

/-- A fault, and the bytes that were not consumed when it was noticed. -/
structure Failure where
  fault : Fault
  rest : Bytes
  deriving DecidableEq

/-- The failure at the next byte, which counts as consumed. -/
def Failure.atNext (fault : Fault) (bytes : Bytes) : Failure := ⟨fault, bytes.drop 1⟩

/-- A place in a document: a line, and bytes of that line. -/
structure Position where
  line : Nat
  column : Nat
  deriving DecidableEq

def Position.start : Position := ⟨1, 0⟩

/-- The place after one more byte. -/
def Position.next (p : Position) (b : UInt8) : Position :=
  if b = Ascii.newline then ⟨p.line + 1, 0⟩ else ⟨p.line, p.column + 1⟩

/-- The place after some bytes. -/
def Position.after (bytes : Bytes) : Position := bytes.foldl Position.next .start

/-- A fault with its place. -/
structure Error where
  fault : Fault
  position : Position
  deriving DecidableEq

def Error.message (e : Error) : String :=
  s!"{e.fault.message} at line {e.position.line} column {e.position.column}"

/-- The error of a failure on a document. -/
def Failure.locate (document : Bytes) (f : Failure) : Error :=
  ⟨f.fault, .after (document.take (document.length - f.rest.length))⟩

end AccessControl.Json
