import XfsVolume.Error.Decode

/-!
# Bytes and big-endian words

A volume is a byte array, and every number on it is big-endian. This module holds the total byte
access, the big-endian value of a run of bytes, its inverse, and the bounds-checked readers from
which every on-disk decoder is built. Reading past the end is an error of the reader; overwriting
is checked by its callers.
-/

namespace XfsVolume

/-- Words of the volume's address arithmetic have 64 bits. -/
def wordLimit : Nat := UInt64.size

/-- Byte `i`, or zero past the end. -/
@[inline] def byteAt (b : ByteArray) (i : Nat) : UInt8 :=
  if h : i < b.size then b[i] else 0

/-- Value of the `n` bytes at `off`, most significant first. -/
def beNat (b : ByteArray) (off : Nat) : Nat → Nat
  | 0 => 0
  | n + 1 => beNat b off n * 256 + (byteAt b (off + n)).toNat

/-- The low `n` bytes of `v`, most significant first. -/
def beBytes : Nat → Nat → List UInt8
  | 0, _ => []
  | n + 1, v => beBytes n (v / 256) ++ [UInt8.ofNat v]

/-- `n` copies of the byte `x`. -/
def filled (n : Nat) (x : UInt8) : ByteArray := ⟨Array.replicate n x⟩

/-- `n` zero bytes. -/
def zeros (n : Nat) : ByteArray := filled n 0

/-- `dst` with the bytes from `off` on replaced by `src`. -/
def overwrite (dst : ByteArray) (off : Nat) (src : ByteArray) : ByteArray :=
  src.copySlice 0 dst off src.size

/-- `dst` with the `n` bytes at `off` replaced by the big-endian form of `v`. -/
def putBE (dst : ByteArray) (off n v : Nat) : ByteArray :=
  overwrite dst off (beBytes n v).toByteArray

/-- The bytes as a list. -/
def byteList (b : ByteArray) : List UInt8 := b.data.toList

/-- The `len` bytes at `off`, or fewer where the array ends. -/
def window (b : ByteArray) (off len : Nat) : ByteArray := b.extract off (off + len)

/-! ## Bounds-checked reads -/

/-- Succeeds when the `len` bytes at `off` lie inside `b`. -/
def need (b : ByteArray) (off len : Nat) : Except DecodeError Unit :=
  if off + len ≥ wordLimit then .error (.invalidField "offset" "overflow")
  else if off + len > b.size then .error (.insufficientData len off (b.size - off))
  else .ok ()

/-- The `len` bytes at `off`. -/
def readBytes (b : ByteArray) (off len : Nat) : Except DecodeError ByteArray := do
  need b off len
  return window b off len

/-- The byte at `off`. -/
def readU8 (b : ByteArray) (off : Nat) : Except DecodeError UInt8 := do
  need b off 1
  return byteAt b off

/-- The 16-bit word at `off`. -/
def readU16 (b : ByteArray) (off : Nat) : Except DecodeError UInt16 := do
  need b off 2
  return UInt16.ofNat (beNat b off 2)

/-- The 32-bit word at `off`. -/
def readU32 (b : ByteArray) (off : Nat) : Except DecodeError UInt32 := do
  need b off 4
  return UInt32.ofNat (beNat b off 4)

/-- The 64-bit word at `off`. -/
def readU64 (b : ByteArray) (off : Nat) : Except DecodeError UInt64 := do
  need b off 8
  return UInt64.ofNat (beNat b off 8)

/-! ## Alignment -/

/-- The next multiple of `align` at or above `value`; zero is a multiple of everything. -/
def alignUp (value align : Nat) : Nat := (value + (align - 1)) / align * align

/-- Least `k` with `value ≤ 2 ^ k`. -/
def ceilLog2 (value : Nat) : Nat :=
  if value ≤ 1 then 0 else Nat.log2 (value - 1) + 1

/-- True for 1, 2, 4, 8, … -/
def isPowerOfTwo (n : Nat) : Bool := n != 0 && 1 <<< Nat.log2 n == n

end XfsVolume
