import XfsVolume.Json.Error
import XfsVolume.Text.Utf8

/-!
# Reading JSON

A reader takes bytes from the front of what is left of a text. Errors say how much was left: most
point past the byte that is wrong, whether it was taken or only looked at.
-/

namespace XfsVolume

/-- A computation that takes bytes from the front of a text. -/
abbrev JsonReader := StateT (List UInt8) (Except JsonError)

/-- The byte of an ASCII character. -/
def asciiByte (c : Char) : UInt8 := UInt8.ofNat c.toNat

/-- True for the bytes of decimal digits. -/
def isDigitByte (b : UInt8) : Bool := 0x30 ≤ b && b ≤ 0x39

/-- True for the bytes that may stand between tokens. -/
def isJsonBlank (b : UInt8) : Bool := b == 0x20 || b == 0x0A || b == 0x09 || b == 0x0D

/-- Value of a hexadecimal digit. -/
def hexValue? (b : UInt8) : Option Nat :=
  if isDigitByte b then some (b.toNat - 0x30)
  else if 0x61 ≤ b && b ≤ 0x66 then some (b.toNat - 0x57)
  else if 0x41 ≤ b && b ≤ 0x46 then some (b.toNat - 0x37)
  else none

namespace JsonReader

/-- Fails after what was taken. -/
def failHere {α : Type} (cause : JsonCause) : JsonReader α := do
  throw ⟨cause, (← get).length⟩

/-- Fails after the byte that comes next. -/
def failNext {α : Type} (cause : JsonCause) : JsonReader α := do
  throw ⟨cause, (← get).length - 1⟩

/-- The byte that comes next. -/
def peek : JsonReader (Option UInt8) := return (← get).head?

/-- Takes the byte that comes next. -/
def skip : JsonReader Unit := modify List.tail

/-- Takes blanks. -/
def skipBlanks : JsonReader Unit := modify (List.dropWhile isJsonBlank)

/-- The first byte after blanks. -/
def peekToken : JsonReader (Option UInt8) := do
  skipBlanks
  peek

/-- Takes the given bytes. -/
def word : List UInt8 → JsonReader Unit
  | [] => return
  | w :: ws => do
    match ← get with
    | [] => failHere .endInValue
    | b :: rest =>
      set rest
      if b ≠ w then failHere .expectedWord
      word ws

/-! ## Texts -/

/-- What an escape by one letter stands for. -/
def letterEscape? (b : UInt8) : Option UInt8 :=
  [('"', 0x22), ('\\', 0x5C), ('/', 0x2F), ('b', 0x08), ('f', 0x0C), ('n', 0x0A), ('r', 0x0D),
    ('t', 0x09)].lookup (Char.ofNat b.toNat)

/-- Takes four hexadecimal digits. -/
def hexEscape : JsonReader Nat := do
  match ← get with
  | a :: b :: c :: d :: rest =>
    set rest
    match [a, b, c, d].mapM hexValue? with
    | some ds => return ds.foldl (· * 16 + ·) 0
    | none => failHere .badEscape
  | _ =>
    set ([] : List UInt8)
    failHere .endInText

/-- Takes the byte `w` on the way to the second half of a pair of escapes. -/
def pairByte (w : UInt8) : JsonReader Unit := do
  match ← get with
  | [] => failHere .endInText
  | b :: rest =>
    set rest
    if b ≠ w then failHere .endOfHexEscape

/-- Bytes of the character with the given number. -/
def characterBytes (n : Nat) : List UInt8 :=
  (String.singleton (Char.ofNat n)).toUTF8.data.toList

/-- What an escape by number stands for; characters past 16 bits are written as a pair. -/
def numberEscape : JsonReader (List UInt8) := do
  let n ← hexEscape
  if 0xDC00 ≤ n && n ≤ 0xDFFF then failHere .loneSurrogate
  if n < 0xD800 || 0xDBFF < n then return characterBytes n
  pairByte (asciiByte '\\')
  pairByte (asciiByte 'u')
  let low ← hexEscape
  if low < 0xDC00 || 0xDFFF < low then failHere .loneSurrogate
  return characterBytes ((n - 0xD800) * 0x400 + (low - 0xDC00) + 0x10000)

/-- What the escape after a backslash stands for. -/
def escape : JsonReader (List UInt8) := do
  match ← get with
  | [] => failHere .endInText
  | b :: rest =>
    set rest
    match letterEscape? b with
    | some c => return [c]
    | none => if b == asciiByte 'u' then numberEscape else failHere .badEscape

/-- The bytes of a text up to its closing quote, taken in at most `fuel` steps. -/
def textBytes : (fuel : Nat) → List UInt8 → JsonReader (List UInt8)
  | 0, _ => failHere .endInText
  | fuel + 1, acc => do
    match ← get with
    | [] => failHere .endInText
    | b :: rest =>
      set rest
      if b == asciiByte '"' then return acc.reverse
      else if b == asciiByte '\\' then textBytes fuel ((← escape).reverse ++ acc)
      else if b < 0x20 then failHere .controlCharacter
      else textBytes fuel (b :: acc)

/-- The text whose opening quote was taken. -/
def text : JsonReader String := do
  return lossyText (← textBytes ((← get).length + 1) [])

/-- Passes over the text whose opening quote was taken, in at most `fuel` steps. -/
def skipTextFor : (fuel : Nat) → JsonReader Unit
  | 0 => failHere .endInText
  | fuel + 1 => do
    match ← get with
    | [] => failHere .endInText
    | b :: rest =>
      if b < 0x20 then failHere .controlCharacter
      set rest
      if b == asciiByte '"' then return
      if b == asciiByte '\\' then
        match ← get with
        | [] => failHere .endInText
        | e :: rest =>
          set rest
          if e == asciiByte 'u' then discard hexEscape
          else if (letterEscape? e).isNone then failHere .badEscape
      skipTextFor fuel

/-- Passes over the text whose opening quote was taken. -/
def skipText : JsonReader Unit := do skipTextFor ((← get).length + 1)

end JsonReader

end XfsVolume
