import XfsVolume.Bytes
import XfsVolume.Json.Reader

/-!
# Hexadecimal payloads

A payload is written as two hexadecimal digits a byte, in either case, with nothing between them.
-/

namespace XfsVolume

/-- Reason for which a text is no payload. -/
inductive HexFlaw
  | oddLength
  /-- The byte at this position is no digit. -/
  | badDigit (byte : UInt8) (position : Nat)
  deriving DecidableEq

/-- Text of the reason; the byte is shown as the character of its number. -/
def HexFlaw.message : HexFlaw → String
  | oddLength => "Odd number of digits"
  | badDigit byte position =>
    s!"Invalid character {quotedSymbol (Char.ofNat byte.toNat)} at position {position}"

/-- Value of the digit at a position. -/
def hexDigitAt (position : Nat) (b : UInt8) : Except HexFlaw Nat :=
  match hexValue? b with
  | some v => .ok v
  | none => .error (.badDigit b position)

/-- Bytes whose pairs of digits start at `position`. -/
def hexBytesFrom : (position : Nat) → List UInt8 → Except HexFlaw (List UInt8)
  | position, a :: b :: rest => do
    let high ← hexDigitAt position a
    let low ← hexDigitAt (position + 1) b
    return UInt8.ofNat (high * 16 + low) :: (← hexBytesFrom (position + 2) rest)
  | _, _ => return []

/-- Bytes of the payload `s`. -/
def hexBytes (s : String) : Except HexFlaw (List UInt8) :=
  let digits := byteList s.toUTF8
  if digits.length % 2 = 1 then .error .oddLength else hexBytesFrom 0 digits

end XfsVolume
