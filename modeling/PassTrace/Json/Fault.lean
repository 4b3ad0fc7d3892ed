import PassTrace.Number.Integer

/-!
# Faults in JSON text

A syntax fault is met at a position, counted in characters. Its wording gives the position also as
line and column. A text whose values are nested too deeply is refused whatever stands in it.
-/

namespace PassTrace.Json

/-- What is wrong with a JSON text. -/
inductive SyntaxFault
  | expectingValue
  | expectingName
  | expectingColon
  | expectingComma
  | extraData
  | unterminatedString
  | controlCharacter
  | invalidEscape
  | invalidUnicodeEscape
  | byteOrderMark
  deriving DecidableEq, Repr

/-- The wording of a syntax fault. -/
def SyntaxFault.message : SyntaxFault → String
  | .expectingValue => "Expecting value"
  | .expectingName => "Expecting property name enclosed in double quotes"
  | .expectingColon => "Expecting ':' delimiter"
  | .expectingComma => "Expecting ',' delimiter"
  | .extraData => "Extra data"
  | .unterminatedString => "Unterminated string starting at"
  | .controlCharacter => "Invalid control character at"
  | .invalidEscape => "Invalid \\escape"
  | .invalidUnicodeEscape => "Invalid \\uXXXX escape"
  | .byteOrderMark => "Unexpected UTF-8 BOM (decode using utf-8-sig)"

/-- A place in a text, counted in characters. -/
structure Place where
  position : Nat
  line : Nat
  column : Nat
  deriving DecidableEq, Repr

/-- The place in a text before its last `remaining` characters. Lines and columns count from
one. -/
def Place.before (text : List Char) (remaining : Nat) : Place :=
  let position := text.length - remaining
  let read := text.take position
  let line := read.count '\n' + 1
  ⟨position, line, (read.reverse.takeWhile (· ≠ '\n')).length + 1⟩

/-- The kinds of values that have parts. -/
inductive Compound
  | array
  | object
  deriving DecidableEq, Repr

/-- The word for a kind of values. -/
def Compound.name : Compound → String
  | .array => "array"
  | .object => "object"

/-- The wording for a value that is nested too deeply. -/
def Compound.tooDeepMessage (kind : Compound) : String :=
  s!"maximum recursion depth exceeded while decoding a JSON {kind.name} from a unicode string"

/-- Why a text is not read as a JSON value. -/
inductive Fault
  | badSyntax (fault : SyntaxFault) (place : Place)
  | badInteger (fault : IntegerFault)
  /-- A value of some kind is nested too deeply. -/
  | tooDeep (kind : Compound)
  deriving DecidableEq, Repr

/-- The wording of a fault with its place. -/
def Fault.message : Fault → String
  | .badSyntax fault p =>
    s!"{fault.message}: line {p.line} column {p.column} (char {p.position})"
  | .badInteger fault => fault.message
  | .tooDeep kind => kind.tooDeepMessage

end PassTrace.Json
