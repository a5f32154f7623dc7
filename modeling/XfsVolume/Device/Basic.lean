import XfsVolume.Bytes
import XfsVolume.Device.Fault

/-!
# Devices

A device is its bytes, read in whole blocks. Its block size is a power of two that divides its
length, so that a range of blocks below the block count is a range of bytes of the device. A patch
overwrites bytes in place and never changes the length.
-/

namespace XfsVolume

/-- The `len` bytes of `bytes` at `off`, all of which must exist. -/
def checkRange (bytes : ByteArray) (off len : Nat) : Except DeviceFault Unit :=
  if off + len ≥ wordLimit then .error .readRangeOverflow
  else if off + len > bytes.size then .error (.readPastEnd off len bytes.size)
  else .ok ()

/-- Bytes read from an open device file or memory. -/
def readRange (bytes : ByteArray) (off len : Nat) : Except DeviceFault ByteArray := do
  checkRange bytes off len
  return window bytes off len

/-- `bytes` with `data` written at `off`, refused where it would end past the device. -/
def patchRange (bytes : ByteArray) (off : Nat) (data : ByteArray) :
    Except DeviceFault ByteArray := do
  checkRange bytes off data.size
  return overwrite bytes off data

/-- First sector of a device. -/
def probeSector (bytes : ByteArray) (len : Nat) : Except DeviceFault ByteArray :=
  readRange bytes 0 len

/-- Bytes divided into blocks. -/
structure Device where
  bytes : ByteArray
  blockSize : Nat

namespace Device

/-- Number of blocks. -/
def blockCount (dev : Device) : Nat := dev.bytes.size / dev.blockSize

/-- `bytes` as a device of blocks of `blockSize` bytes. -/
def ofBytes (bytes : ByteArray) (blockSize : Nat) : Except DeviceFault Device :=
  if !isPowerOfTwo blockSize then .error (.badBlockSize blockSize)
  else if bytes.size % blockSize ≠ 0 then
    .error (.notBlockAligned bytes.size blockSize (bytes.size % blockSize))
  else .ok { bytes, blockSize }

/-- The `count` blocks from `start` on. That the range of bytes can be counted in 64 bits needs no
check of its own: the range of blocks lies inside the device. -/
def readBlocks (dev : Device) (start count : Nat) : Except DeviceFault ByteArray :=
  if count = 0 then .error .noBlocks
  else if start + count ≥ wordLimit then .error .blockRangeOverflow
  else if start + count > dev.blockCount then
    .error (.blocksPastEnd start count dev.blockCount)
  else readRange dev.bytes (start * dev.blockSize) (count * dev.blockSize)

/-- Block `block`. -/
def readBlock (dev : Device) (block : Nat) : Except DeviceFault ByteArray :=
  dev.readBlocks block 1

/-- The device with `data` written at byte `off`. -/
def patch (dev : Device) (off : Nat) (data : ByteArray) : Except DeviceFault Device := do
  let bytes ← patchRange dev.bytes off data
  return { dev with bytes }

end Device

end XfsVolume
