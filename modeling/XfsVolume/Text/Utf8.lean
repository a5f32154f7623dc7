/-!
# Text from bytes

Names and labels on a volume are bytes of no promised encoding. They are shown as UTF-8, each
longest run that starts a character without completing it, and each byte that starts none, being
shown as the replacement character.
-/

namespace XfsVolume

/-- Shown for bytes that encode no character. -/
def replacement : Char := '\uFFFD'

/-- For a byte that starts a character of several bytes: how many follow it, the range of the first
of these, and the bits that the byte itself contributes. -/
def leadByte? (b : UInt8) : Option (Nat × (UInt8 × UInt8) × Nat) :=
  if 0xC2 ≤ b && b ≤ 0xDF then some (1, (0x80, 0xBF), b.toNat - 0xC0)
  else if b == 0xE0 then some (2, (0xA0, 0xBF), 0)
  else if b == 0xED then some (2, (0x80, 0x9F), 0xD)
  else if 0xE1 ≤ b && b ≤ 0xEF then some (2, (0x80, 0xBF), b.toNat - 0xE0)
  else if b == 0xF0 then some (3, (0x90, 0xBF), 0)
  else if 0xF1 ≤ b && b ≤ 0xF3 then some (3, (0x80, 0xBF), b.toNat - 0xF0)
  else if b == 0xF4 then some (3, (0x80, 0x8F), 4)
  else none

/-- The leading bytes, at most `n`, that can follow in a character: the first lies in the given
range and the others in the general one. -/
def continuation : Nat → UInt8 × UInt8 → List UInt8 → List UInt8
  | n + 1, (lo, hi), b :: bs =>
    if lo ≤ b && b ≤ hi then b :: continuation n (0x80, 0xBF) bs else []
  | _, _, _ => []

/-- The characters of `bs`, with a replacement for each fragment. -/
def decodeUtf8 : List UInt8 → List Char
  | [] => []
  | b :: bs =>
    if b < 0x80 then Char.ofNat b.toNat :: decodeUtf8 bs
    else
      match leadByte? b with
      | none => replacement :: decodeUtf8 bs
      | some (n, range, bits) =>
        let tail := continuation n range bs
        let c :=
          if tail.length = n then
            Char.ofNat (tail.foldl (fun v x => v * 64 + (x.toNat - 0x80)) bits)
          else replacement
        c :: decodeUtf8 (bs.drop tail.length)
termination_by bs => bs.length
decreasing_by
  all_goals simp only [List.length_cons, List.length_drop]; omega

/-- The text that bytes are shown as. -/
def lossyText (bs : List UInt8) : String := String.ofList (decodeUtf8 bs)

/-- True for the characters of the Unicode class of white space. -/
def isBlank (c : Char) : Bool :=
  let n := c.toNat
  (0x9 ≤ n && n ≤ 0xD) || n == 0x20 || n == 0x85 || n == 0xA0 || n == 0x1680 ||
    (0x2000 ≤ n && n ≤ 0x200A) || n == 0x2028 || n == 0x2029 || n == 0x202F || n == 0x205F ||
    n == 0x3000

/-- `cs` without white space at its ends. -/
def trimBlank (cs : List Char) : List Char :=
  ((cs.dropWhile isBlank).reverse.dropWhile isBlank).reverse

/-- Text of a field padded with zero bytes: it ends at the first zero byte, and white space at
either end is padding too. -/
def paddedText (bs : List UInt8) : String :=
  String.ofList (trimBlank (decodeUtf8 (bs.takeWhile (· != 0))))

end XfsVolume
