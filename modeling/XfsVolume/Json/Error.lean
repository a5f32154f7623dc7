import XfsVolume.Text.Quoted

/-!
# Errors of reading JSON

Why a text is not the JSON document that was expected, and where: the line, and the number of bytes
of it that had been read.
-/

namespace XfsVolume

/-- Reason for which a text is not the expected document. -/
inductive JsonCause
  | endInList
  | endInObject
  | endInText
  | endInValue
  | expectedColon
  | expectedListEnd
  | expectedObjectEnd
  | expectedWord
  | expectedValue
  | badEscape
  | badNumber
  | numberTooLarge
  | controlCharacter
  | keyNotText
  | loneSurrogate
  | trailingComma
  | trailingText
  | endOfHexEscape
  | wrongType (found expected : String)
  | wrongValue (found expected : String)
  | wrongLength (length : Nat) (expected : String)
  | missingField (name : String)
  | duplicateField (name : String)
  deriving DecidableEq

/-- Text of the reason. -/
def JsonCause.message : JsonCause → String
  | .endInList => "EOF while parsing a list"
  | .endInObject => "EOF while parsing an object"
  | .endInText => "EOF while parsing a string"
  | .endInValue => "EOF while parsing a value"
  | .expectedColon => "expected `:`"
  | .expectedListEnd => "expected `,` or `]`"
  | .expectedObjectEnd => "expected `,` or `\x7d`"
  | .expectedWord => "expected ident"
  | .expectedValue => "expected value"
  | .badEscape => "invalid escape"
  | .badNumber => "invalid number"
  | .numberTooLarge => "number out of range"
  | .controlCharacter =>
    "control character (\\u0000-\\u001F) found while parsing a string"
  | .keyNotText => "key must be a string"
  | .loneSurrogate => "lone leading surrogate in hex escape"
  | .trailingComma => "trailing comma"
  | .trailingText => "trailing characters"
  | .endOfHexEscape => "unexpected end of hex escape"
  | .wrongType found expected => s!"invalid type: {found}, expected {expected}"
  | .wrongValue found expected => s!"invalid value: {found}, expected {expected}"
  | .wrongLength length expected => s!"invalid length {length}, expected {expected}"
  | .missingField name => s!"missing field `{name}`"
  | .duplicateField name => s!"duplicate field `{name}`"

/-- An error and the number of bytes that were left after what was read. -/
structure JsonError where
  cause : JsonCause
  left : Nat
  deriving DecidableEq

/-- Byte of the end of a line. -/
def lineEnd : UInt8 := 0x0A

/-- Text of an error met in `input`. -/
def JsonError.message (e : JsonError) (input : List UInt8) : String :=
  let before := input.take (input.length - e.left)
  let line := 1 + before.count lineEnd
  let column := (before.reverse.takeWhile (· != lineEnd)).length
  s!"{e.cause.message} at line {line} column {column}"

end XfsVolume
