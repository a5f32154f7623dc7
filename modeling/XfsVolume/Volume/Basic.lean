import XfsVolume.BlockSize
import XfsVolume.Directory.Listing
import XfsVolume.Superblock

/-!
# Volumes

A volume is a medium whose superblock has been read and whose geometry was derived from it. It is
mounted from bare bytes, whose block size the superblock gives, or from a device, whose block size
must be the superblock's. The superblock is checked unless the caller asks for it to be taken as it
stands, in which case the volume may also end past the device.
-/

namespace XfsVolume

/-- How a volume is mounted. -/
structure MountOptions where
  /-- Take the superblock as it stands. -/
  skipValidation : Bool := false
  cacheSlots : Nat := defaultCacheSlots
  deriving DecidableEq

/-- A volume ready to be read. -/
structure Volume extends Medium where
  superblock : Superblock
  cacheSlots : Nat

/-- Superblock fields whose disagreement concerns the geometry of a volume, rather than whether
there is one. -/
def geometryFields : List String :=
  ["sb_blocklog", "sb_inodesize", "sb_inopblock", "sb_agblocks", "sb_agblklog", "sb_dblocks",
    "sb_dirblklog", "sb_rootino"]

namespace Superblock

/-- The fault that a failed check of the superblock means. -/
def checkFault (sb : Superblock) (e : DecodeError) : Fault :=
  match e with
  | .invalidField field _ =>
    if field = "sb_blocksize" then .unsupportedBlockSize sb.blockSize.toNat
    else if field ∈ geometryFields then .invalidGeometry (.decode e)
    else .invalidSuperblock (.decode e)
  | _ => .invalidSuperblock (.decode e)

/-- Superblock at the start of `region`. -/
def read (region : ByteArray) : Except Fault Superblock :=
  (decode region).mapError fun e => Fault.invalidSuperblock (.decode e)

end Superblock

namespace Volume

/-- Mounts a device. -/
def mount (dev : Device) (options : MountOptions) : Except Fault Volume := do
  if dev.blockCount = 0 then throw (.invalidSuperblock .emptyDevice)
  let sb ← Superblock.read (← (dev.readBlock 0).mapError Fault.io)
  if !options.skipValidation then sb.validate.mapError sb.checkFault
  let geo ← sb.geometry.mapError sb.checkFault
  let blockSize := geo.blockSize.toNat
  if blockSize ≠ supportedBlockSize then throw (.unsupportedBlockSize blockSize)
  if dev.blockSize ≠ blockSize then
    throw (.invalidGeometry (.deviceBlockSize dev.blockSize blockSize))
  if geo.dataBlocks.toNat > dev.blockCount && !options.skipValidation then
    throw (.invalidGeometry (.pastDevice geo.dataBlocks.toNat dev.blockCount))
  return { device := dev, geometry := geo, superblock := sb, cacheSlots := options.cacheSlots }

/-- Mounts bytes, whose superblock gives the block size. -/
def mountBytes (bytes : ByteArray) (options : MountOptions) : Except Fault Volume := do
  let sb ← Superblock.read (← (probeSector bytes sectorSize).mapError Fault.io)
  let size ← (BlockSize.ofNat sb.blockSize.toNat).mapError fun e =>
    Fault.invalidGeometry (.decode e)
  if size.bytes ≠ supportedBlockSize then throw (.unsupportedBlockSize size.bytes)
  mount (← (Device.ofBytes bytes size.bytes).mapError Fault.io) options

/-- The empty directory cache of the volume. -/
def emptyCache (v : Volume) : BlockCache := BlockCache.withCapacity v.cacheSlots

/-- Number of the root inode. -/
def root (v : Volume) : Nat := v.geometry.rootIno.toNat

end Volume

end XfsVolume
