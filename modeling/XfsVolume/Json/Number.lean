import XfsVolume.Bytes
import XfsVolume.Decimal.Shortest
import XfsVolume.Json.Reader

/-!
# Numbers in JSON

A number is whole while it fits 64 bits and has neither point nor exponent; any other is read into
binary. Its digits are gathered into a 64-bit word, those that no longer fit only count, and the
word is multiplied or divided by a power of ten.
-/

namespace XfsVolume

/-- A number in a document. -/
inductive JsonNumber
  | whole (n : Nat)
  /-- The whole number `-n`. -/
  | negative (n : Nat)
  | real (x : Float)

/-- How a number is named in errors. -/
def JsonNumber.shown : JsonNumber → String
  | .whole n => s!"integer `{n}`"
  | .negative n => s!"integer `-{n}`"
  | .real x => s!"floating point `{floatText x.toBits}`"

/-- Largest power of ten that a division or multiplication takes at once. -/
def largestPower : Nat := 308

/-- `10 ^ k`. -/
def powerOfTen (k : Nat) : Float := Float.ofScientific 1 false k

/-- `x * 10 ^ e`, or none where it is too large. A number that is not yet zero after the few steps
allowed would have been zero. -/
def scaleByTen : (steps : Nat) → Float → Int → Option Float
  | 0, x, _ => some x
  | steps + 1, x, e =>
    if e.natAbs ≤ largestPower then
      if 0 ≤ e then
        let y := x * powerOfTen e.natAbs
        if y.isInf then none else some y
      else some (x / powerOfTen e.natAbs)
    else if x == 0 then some x
    else if 0 ≤ e then none
    else scaleByTen steps (x / powerOfTen largestPower) (e + largestPower)

/-- Continues the number `n` by the digits at the front of `bs` while it stays below `limit`; the
answer is the number, the digits taken, and what is left. -/
def gatherDigits (limit : Nat) : (n taken : Nat) → List UInt8 → Nat × Nat × List UInt8
  | n, taken, [] => (n, taken, [])
  | n, taken, b :: rest =>
    let next := n * 10 + (b.toNat - 0x30)
    if isDigitByte b && next < limit then gatherDigits limit next (taken + 1) rest
    else (n, taken, b :: rest)

namespace JsonReader

/-- Gathers digits into a number below `limit`. -/
def digits (limit n : Nat) : JsonReader (Nat × Nat) := do
  let (n, taken, rest) := gatherDigits limit n 0 (← get)
  set rest
  return (n, taken)

/-- Takes digits; the answer is their number. -/
def skipDigits : JsonReader Nat := do
  let bs ← get
  set (bs.dropWhile isDigitByte)
  return (bs.takeWhile isDigitByte).length

/-- True when a digit comes next. -/
def atDigit : JsonReader Bool := return ((← peek).map isDigitByte).getD false

/-- True when the given byte comes next. -/
def atByte (b : UInt8) : JsonReader Bool := return (← peek) == some b

/-- True when the mark of an exponent comes next. -/
def atExponent : JsonReader Bool :=
  return (← peek).any fun b => b == asciiByte 'e' || b == asciiByte 'E'

/-- `m * 10 ^ e`, negated unless `positive`. -/
def scaled (positive : Bool) (m : Nat) (e : Int) : JsonReader JsonNumber := do
  match scaleByTen 5 (UInt64.ofNat m).toFloat e with
  | some x => return .real (if positive then x else -x)
  | none => failHere .numberTooLarge

/-- The number `m * 10 ^ e` with the exponent that comes next. -/
def exponent (positive : Bool) (m : Nat) (e : Int) : JsonReader JsonNumber := do
  skip
  let plus := !(← atByte (asciiByte '-'))
  let sign ← peek
  if sign == some (asciiByte '+') || !plus then skip
  match ← get with
  | [] => failHere .endInValue
  | b :: rest =>
    set rest
    if !isDigitByte b then failHere .badNumber
    let (k, _) ← digits (UInt32.size / 2) (b.toNat - 0x30)
    if ← atDigit then
      skip
      if m ≠ 0 && plus then failHere .numberTooLarge
      let _ ← skipDigits
      return .real (if positive then 0.0 else -0.0)
    scaled positive m (if plus then e + k else e - k)

/-- The number `m * 10 ^ e` with what may come after its digits. -/
def afterDigits (positive : Bool) (m : Nat) (e : Int) : JsonReader JsonNumber := do
  if ← atExponent then exponent positive m e else scaled positive m e

/-- The number `m * 10 ^ e` with the fraction that comes next. -/
def fraction (positive : Bool) (m : Nat) (e : Int) : JsonReader JsonNumber := do
  skip
  let (m, taken) ← digits wordLimit m
  if ← atDigit then
    let _ ← skipDigits
    afterDigits positive m (e - taken)
  else if taken = 0 then
    if (← peek).isNone then failNext .endInValue else failNext .badNumber
  else afterDigits positive m (e - taken)

/-- The number whose whole part is `m`. -/
def afterWhole (positive : Bool) (m : Nat) : JsonReader JsonNumber := do
  if ← atByte (asciiByte '.') then fraction positive m 0
  else if ← atExponent then exponent positive m 0
  else if positive then return .whole m
  else if m = 0 || UInt64.size / 2 < m then return .real (-(UInt64.ofNat m).toFloat)
  else return .negative m

/-- The number whose sign was taken. -/
def number (positive : Bool) : JsonReader JsonNumber := do
  match ← get with
  | [] => failHere .endInValue
  | b :: rest =>
    set rest
    if !isDigitByte b then failHere .badNumber
    if b == asciiByte '0' then
      if ← atDigit then failNext .badNumber else afterWhole positive 0
    else
      let (m, _) ← digits wordLimit (b.toNat - 0x30)
      if ← atDigit then
        let more ← skipDigits
        if ← atByte (asciiByte '.') then fraction positive m more
        else afterDigits positive m more
      else afterWhole positive m

/-- Passes over the exponent that comes next. -/
def skipExponent : JsonReader Unit := do
  skip
  let sign ← peek
  if sign == some (asciiByte '+') || sign == some (asciiByte '-') then skip
  match ← get with
  | [] => failHere .badNumber
  | b :: rest =>
    set rest
    if !isDigitByte b then failHere .badNumber
    discard skipDigits

/-- Passes over the number whose sign was taken. -/
def skipNumber : JsonReader Unit := do
  match ← get with
  | [] => failHere .badNumber
  | b :: rest =>
    set rest
    if !isDigitByte b then failHere .badNumber
    if b == asciiByte '0' then
      if ← atDigit then failNext .badNumber
    else discard skipDigits
    if ← atByte (asciiByte '.') then
      skip
      if (← skipDigits) = 0 then failNext .badNumber
      if ← atExponent then skipExponent
    else if ← atExponent then skipExponent

end JsonReader

end XfsVolume
