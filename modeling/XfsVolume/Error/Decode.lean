/-!
# Decoding errors

Why a structure of fixed layout could not be decoded from bytes, and the text of each reason.
-/

namespace XfsVolume

/-- `n` in base `base` without a mark. -/
def digits (base n : Nat) : String := String.ofList (Nat.toDigits base n)

/-- `n` in hexadecimal, marked `0x`. -/
def hexText (n : Nat) : String := "0x" ++ digits 16 n

/-- `n` in octal, marked `0o`. -/
def octText (n : Nat) : String := "0o" ++ digits 8 n

/-- Reason for which a fixed layout does not hold the structure it should. -/
inductive DecodeError
  /-- `needed` bytes were wanted at `offset` and `available` are there. -/
  | insufficientData (needed offset available : Nat)
  /-- The structure's mark is `found`, not `expected`. -/
  | invalidMagic (expected found : Nat)
  /-- The named field breaks the stated rule. -/
  | invalidField (field reason : String)
  /-- The named field does not fit the word it is used as. -/
  | integerConversion (field : String)
  deriving DecidableEq

/-- Name of a decoding error's class. -/
def DecodeError.name : DecodeError → String
  | .insufficientData .. => "InsufficientData"
  | .invalidMagic .. => "InvalidMagic"
  | .invalidField .. => "InvalidField"
  | .integerConversion _ => "IntegerConversion"

/-- Text of a decoding error. -/
def DecodeError.message : DecodeError → String
  | .insufficientData needed offset available =>
    s!"insufficient data: need {needed} bytes at offset {offset}, got {available}"
  | .invalidMagic expected found =>
    s!"invalid magic: expected {hexText expected}, got {hexText found}"
  | .invalidField field reason => s!"invalid field: {field} ({reason})"
  | .integerConversion field => s!"integer conversion failed: {field}"

end XfsVolume
