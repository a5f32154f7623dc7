/-!
# Name hash

Directories index their names by a 32-bit hash: for each byte the hash so far is rotated left by
seven bits and the byte is mixed in. Four bytes at a time give one rotation by 28 bits, and up to
three bytes are left over.
-/

namespace XfsVolume

/-- A name: its bytes, in no promised encoding. -/
abbrev Name := List UInt8

/-- Longest name of a directory entry. -/
def maxNameLength : Nat := 255

/-- `h` rotated left by `k` bits, for `0 < k < 32`. -/
@[inline] def rotateLeft (h : UInt32) (k : UInt32) : UInt32 := (h <<< k) ||| (h >>> (32 - k))

/-- Hash of a name, continued from `h`. -/
def nameHashFrom (h : UInt32) : Name → UInt32
  | a :: b :: c :: d :: rest =>
    nameHashFrom ((a.toUInt32 <<< 21) ^^^ (b.toUInt32 <<< 14) ^^^ (c.toUInt32 <<< 7) ^^^
      d.toUInt32 ^^^ rotateLeft h 28) rest
  | [a, b, c] =>
    (a.toUInt32 <<< 14) ^^^ (b.toUInt32 <<< 7) ^^^ c.toUInt32 ^^^ rotateLeft h 21
  | [a, b] => (a.toUInt32 <<< 7) ^^^ b.toUInt32 ^^^ rotateLeft h 14
  | [a] => a.toUInt32 ^^^ rotateLeft h 7
  | [] => h

/-- Hash of a name. -/
def nameHash (name : Name) : UInt32 := nameHashFrom 0 name

/-- A four-byte group whose contribution to the hash is that of `abcd`, one for each three-bit
mask. The low bit of a byte and the high bit of the next cancel out. -/
def collidingGroup (mask : Nat) : Name :=
  let flip (k : Nat) (x low high : UInt8) : UInt8 :=
    x ^^^ (if mask.testBit k then low else 0) ^^^ (if 0 < k && mask.testBit (k - 1) then high else 0)
  [flip 0 0x61 1 0x80, flip 1 0x62 1 0x80, flip 2 0x63 1 0x80,
    0x64 ^^^ (if mask.testBit 2 then 0x80 else 0)]

/-- Up to 64 distinct names of eight bytes with one hash. -/
def collidingNames (count : Nat) : List Name :=
  (List.range (min count 64)).map fun m => collidingGroup (m % 8) ++ collidingGroup (m / 8)

end XfsVolume
