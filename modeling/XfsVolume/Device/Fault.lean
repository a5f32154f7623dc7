import XfsVolume.Error.Os

/-!
# Device faults

Why a device refused a read, a patch or its block size.
-/

namespace XfsVolume

/-- Reason for which a device operation failed. -/
inductive DeviceFault
  /-- The operating system failed the call with this code. -/
  | os (code : Nat)
  /-- The bytes asked for end past the device. -/
  | readPastEnd (offset len deviceLen : Nat)
  /-- The end of the bytes asked for is no 64-bit number. -/
  | readRangeOverflow
  /-- The block size is not a power of two. -/
  | badBlockSize (size : Nat)
  /-- The device's length is not a whole number of blocks. -/
  | notBlockAligned (len blockSize remainder : Nat)
  /-- No blocks were asked for. -/
  | noBlocks
  /-- The end of the blocks asked for is no 64-bit number. -/
  | blockRangeOverflow
  /-- The blocks asked for end past the device. -/
  | blocksPastEnd (start count blockCount : Nat)
  /-- Any other reason, in words. -/
  | other (text : String)
  deriving DecidableEq

namespace DeviceFault

/-- Text of a device fault. -/
def message : DeviceFault → String
  | os code => OsError.message code
  | readPastEnd offset len deviceLen =>
    s!"read out of bounds: offset={offset} len={len} device_len={deviceLen}"
  | readRangeOverflow => "read range overflows u64"
  | badBlockSize size => s!"invalid block_size={size} (must be power of two)"
  | notBlockAligned len blockSize remainder =>
    s!"image length is not block-aligned: len_bytes={len} block_size={blockSize} " ++
      s!"remainder={remainder}"
  | noBlocks => "read_blocks with count=0"
  | blockRangeOverflow => "block range overflow"
  | blocksPastEnd start count blockCount =>
    s!"block range out of bounds: start={start} count={count} block_count={blockCount}"
  | other text => text

/-- Operating-system code of a device fault: its own, or the general I/O code. -/
def errno : DeviceFault → Nat
  | os code => code
  | _ => OsError.io

end DeviceFault

end XfsVolume
