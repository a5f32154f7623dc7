import XfsVolume.Bytes

/-!
# Extents

An extent maps a run of file blocks to a run of blocks of the volume. On disk it is one number of
128 bits: from the top, a flag for blocks that were allocated but never written, 54 bits of file
block, 52 bits of block address and 21 bits of length. Packing drops the bits of a field that do
not fit.
-/

namespace XfsVolume

/-- Bits of an extent's first file block. -/
def startBits : Nat := 54

/-- Bits of an extent's block address. -/
def addressBits : Nat := 52

/-- Bits of an extent's length. -/
def countBits : Nat := 21

/-- A run of file blocks and the run of volume blocks that holds it. -/
structure Extent where
  /-- First file block. -/
  start : Nat
  /-- Address of the first block. -/
  address : Nat
  /-- Number of blocks. -/
  count : Nat
  /-- Allocated but never written; reads as zeros. -/
  unwritten : Bool
  deriving DecidableEq

namespace Extent

/-- The extent packed in the high and the low word. -/
def ofWords (hi lo : UInt64) : Extent where
  start := (hi.toNat >>> 9) % (1 <<< startBits)
  address := (hi.toNat % (1 <<< 9)) <<< 43 + lo.toNat >>> countBits
  count := lo.toNat % (1 <<< countBits)
  unwritten := hi.toNat >>> 63 != 0

/-- The high and the low word of an extent, with the bits that do not fit dropped. -/
def toWords (e : Extent) : UInt64 × UInt64 :=
  let address := e.address % (1 <<< addressBits)
  let start := e.start % (1 <<< startBits)
  (UInt64.ofNat (e.unwritten.toNat <<< 63 + start <<< 9 + address >>> 43),
    UInt64.ofNat ((address % (1 <<< 43)) <<< countBits + e.count % (1 <<< countBits)))

/-- Packed form of an extent. -/
def encode (e : Extent) : List UInt8 :=
  beBytes 8 e.toWords.1.toNat ++ beBytes 8 e.toWords.2.toNat

/-- The extent packed at `off`. -/
def decode (b : ByteArray) (off : Nat) : Except DecodeError Extent := do
  let hi ← readU64 b off
  let lo ← readU64 b (off + 8)
  return ofWords hi lo

/-- First file block past the extent, or the largest word. -/
def stop (e : Extent) : Nat := min (e.start + e.count) (wordLimit - 1)

/-- True when the extent holds file block `logical`. -/
def covers (e : Extent) (logical : Nat) : Bool := e.start ≤ logical && logical < e.stop

/-- Address of the block that holds file block `logical`. -/
def addressOf? (e : Extent) (logical : Nat) : Option Nat :=
  if e.covers logical then some (e.address + (logical - e.start)) else none

/-- The `n` extents packed from `off` on. -/
def decodeList (b : ByteArray) (off : Nat) : Nat → Except DecodeError (List Extent)
  | 0 => .ok []
  | n + 1 => do
    let e ← decode b off
    let es ← decodeList b (off + 16) n
    return e :: es

/-- The `count` extents of a fork that holds nothing else. -/
def ofFork (fork : ByteArray) (count : Nat) : Except DecodeError (List Extent) :=
  if count * 16 > fork.size then
    .error (.invalidField "di_nextents" "extent list larger than the data fork")
  else decodeList fork 0 count

end Extent

end XfsVolume
