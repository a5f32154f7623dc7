import XfsVolume.Bytes

/-!
# Block sizes

A volume's block size is a power of two from one sector to 64 KiB. Which of these are mounted is
decided elsewhere.
-/

namespace XfsVolume

/-- True for the powers of two from 512 to 65536. -/
def isBlockSize (n : Nat) : Bool := isPowerOfTwo n && 512 ≤ n && n ≤ 65536

/-- A block size. -/
structure BlockSize where
  bytes : Nat
  valid : isBlockSize bytes = true
  deriving DecidableEq

namespace BlockSize

/-- `n` bytes as a block size. -/
def ofNat (n : Nat) : Except DecodeError BlockSize :=
  if h : isBlockSize n = true then .ok ⟨n, h⟩
  else .error (.invalidField "sb_blocksize" "must be power of two in 512..=65536")

/-- Base-two logarithm of the block size. -/
def shift (s : BlockSize) : Nat := Nat.log2 s.bytes

/-- First byte of block `block`, if it is a 64-bit number. -/
def firstByte? (s : BlockSize) (block : Nat) : Option Nat :=
  if block * s.bytes < wordLimit then some (block * s.bytes) else none

end BlockSize

end XfsVolume
