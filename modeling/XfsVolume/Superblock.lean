import XfsVolume.Geometry
import XfsVolume.Text.Utf8

/-!
# Superblock

The superblock is the first sector of a volume. Decoding takes its fields as they stand; checking
them against each other is a separate step, so that a damaged volume can still be examined; and the
geometry needs only that the shifts derived from the fields are meaningful.
-/

namespace XfsVolume

/-- The mark `XFSB`. -/
def superblockMagic : UInt32 := 0x58465342

/-- Bytes read to find a superblock. -/
def sectorSize : Nat := 512

/-- The only block size that is mounted. -/
def supportedBlockSize : Nat := 4096

/-- Bytes of the superblock that hold the fields decoded here. -/
def superblockLength : Nat := 264

/-- Low bits of the version word that hold the version number. -/
def versionMask : UInt16 := 0x000F

/-- Bit of the version word: directories have their second format. -/
def dirV2Bit : UInt16 := 0x2000

/-- Bit of the version word: there is a second feature word. -/
def moreBitsBit : UInt16 := 0x8000

/-- Bit of the second feature word of version 4: entries carry a file type. -/
def ftypeBitV4 : UInt32 := 0x200

/-- Bit of the incompatible features of version 5: entries carry a file type. -/
def ftypeBitV5 : UInt32 := 1

/-- Incompatible features that reading can honour: file types, sparse inode chunks, a metadata
identifier, wide timestamps and wide extent counts. -/
def readableFeatures : UInt32 := 0x2F

/-- Fields of a superblock. -/
structure Superblock where
  blockSize : UInt32
  dataBlocks : UInt64
  realtimeBlocks : UInt64
  realtimeExtents : UInt64
  uuid : List UInt8
  logStart : UInt64
  rootIno : UInt64
  realtimeBitmapIno : UInt64
  realtimeSummaryIno : UInt64
  realtimeExtentSize : UInt32
  agBlocks : UInt32
  agCount : UInt32
  realtimeBitmapBlocks : UInt32
  logBlocks : UInt32
  versionNum : UInt16
  sectorSize : UInt16
  inodeSize : UInt16
  inodesPerBlock : UInt16
  label : String
  blockLog : UInt8
  sectorLog : UInt8
  inodeLog : UInt8
  inodesPerBlockLog : UInt8
  agBlockLog : UInt8
  realtimeExtentsLog : UInt8
  inProgress : UInt8
  inodeMaxPercent : UInt8
  inodeCount : UInt64
  freeInodes : UInt64
  freeBlocks : UInt64
  freeRealtimeExtents : UInt64
  features2 : UInt32
  dirBlockLog : UInt8
  /-- This and the fields below are zero before version 5. -/
  compatFeatures : UInt32
  readOnlyFeatures : UInt32
  incompatFeatures : UInt32
  logFeatures : UInt32
  metaUuid : List UInt8
  deriving DecidableEq

namespace Superblock

/-- Version number in a version word. -/
def versionOf (versionNum : UInt16) : UInt16 := versionNum &&& versionMask

/-- Superblock held by the first bytes of `region`. -/
def decode (region : ByteArray) : Except DecodeError Superblock := do
  if region.size < superblockLength then
    throw (.insufficientData superblockLength 0 region.size)
  let magic ← readU32 region 0
  if magic ≠ superblockMagic then
    throw (.invalidMagic superblockMagic.toNat magic.toNat)
  let versionNum ← readU16 region 100
  let isV5 := versionOf versionNum == 5
  let v5Word (off : Nat) : Except DecodeError UInt32 := if isV5 then readU32 region off else pure 0
  let metaUuid ← if isV5 then byteList <$> readBytes region 248 16 else pure (List.replicate 16 0)
  return {
    blockSize := ← readU32 region 4
    dataBlocks := ← readU64 region 8
    realtimeBlocks := ← readU64 region 16
    realtimeExtents := ← readU64 region 24
    uuid := byteList (← readBytes region 32 16)
    logStart := ← readU64 region 48
    rootIno := ← readU64 region 56
    realtimeBitmapIno := ← readU64 region 64
    realtimeSummaryIno := ← readU64 region 72
    realtimeExtentSize := ← readU32 region 80
    agBlocks := ← readU32 region 84
    agCount := ← readU32 region 88
    realtimeBitmapBlocks := ← readU32 region 92
    logBlocks := ← readU32 region 96
    versionNum
    sectorSize := ← readU16 region 102
    inodeSize := ← readU16 region 104
    inodesPerBlock := ← readU16 region 106
    label := paddedText (byteList (← readBytes region 108 12))
    blockLog := ← readU8 region 120
    sectorLog := ← readU8 region 121
    inodeLog := ← readU8 region 122
    inodesPerBlockLog := ← readU8 region 123
    agBlockLog := ← readU8 region 124
    realtimeExtentsLog := ← readU8 region 125
    inProgress := ← readU8 region 126
    inodeMaxPercent := ← readU8 region 127
    inodeCount := ← readU64 region 128
    freeInodes := ← readU64 region 136
    freeBlocks := ← readU64 region 144
    freeRealtimeExtents := ← readU64 region 152
    features2 := ← readU32 region 200
    dirBlockLog := ← readU8 region 192
    compatFeatures := ← v5Word 208
    readOnlyFeatures := ← v5Word 212
    incompatFeatures := ← v5Word 216
    logFeatures := ← v5Word 220
    metaUuid }

/-- Version number. -/
def version (sb : Superblock) : UInt16 := versionOf sb.versionNum

/-- Version 5: checksummed metadata and version 3 inodes. -/
def isV5 (sb : Superblock) : Bool := sb.version == 5

/-- True when directory entries carry a file type; each version says so in a word of its own. -/
def hasFtype (sb : Superblock) : Bool :=
  if sb.isV5 then sb.incompatFeatures &&& ftypeBitV5 != 0
  else sb.versionNum &&& moreBitsBit != 0 && sb.features2 &&& ftypeBitV4 != 0

/-! ## Consistency -/

/-- The version is 4 with second-format directories, or 5 with readable features only. -/
def checkVersion (sb : Superblock) : Except DecodeError Unit :=
  if sb.version == 4 then
    if sb.versionNum &&& dirV2Bit == 0 then
      .error (.invalidField "sb_versionnum" "version 1 directories are not supported")
    else .ok ()
  else if sb.version == 5 then
    if sb.incompatFeatures &&& ~~~readableFeatures != 0 then
      .error (.invalidField "sb_features_incompat" "unknown incompatible feature bits")
    else .ok ()
  else .error (.invalidField "sb_versionnum" "unsupported superblock version")

/-- The block size is a power of two, agrees with its logarithm, and is the supported one. -/
def checkBlockSize (sb : Superblock) : Except DecodeError Unit :=
  let size := sb.blockSize.toNat
  if !isPowerOfTwo size || size < 512 || size > 65536 || 1 <<< sb.blockLog.toNat ≠ size then
    .error (.invalidField "sb_blocklog" "does not match sb_blocksize")
  else if size ≠ supportedBlockSize then
    .error (.invalidField "sb_blocksize" "unsupported block size")
  else .ok ()

/-- The inode size, its logarithm and the inodes per block agree. -/
def checkInodeSize (sb : Superblock) : Except DecodeError Unit :=
  let size := sb.inodeSize.toNat
  let perBlock := sb.blockSize.toNat / size
  if size < 256 || size > 2048 || 1 <<< sb.inodeLog.toNat ≠ size then
    .error (.invalidField "sb_inodesize"
      "must be a power of two in 256..=2048 matching sb_inodelog")
  else if sb.inodesPerBlock.toNat ≠ perBlock || 1 <<< sb.inodesPerBlockLog.toNat ≠ perBlock then
    .error (.invalidField "sb_inopblock" "does not match block and inode sizes")
  else .ok ()

/-- The allocation groups are not empty, their logarithm is right, and they hold the volume. -/
def checkGroups (sb : Superblock) : Except DecodeError Unit :=
  if sb.agBlocks == 0 || sb.agCount == 0 then
    .error (.invalidField "sb_agblocks" "zero-sized allocation groups")
  else if sb.agBlockLog.toNat ≠ ceilLog2 sb.agBlocks.toNat then
    .error (.invalidField "sb_agblklog" "does not match sb_agblocks")
  else if sb.dataBlocks == 0 ||
      sb.dataBlocks.toNat > sb.agBlocks.toNat * sb.agCount.toNat then
    .error (.invalidField "sb_dblocks" "outside the allocation-group span")
  else .ok ()

/-- Directory blocks have at most 64 KiB. -/
def checkDirBlockSize (sb : Superblock) : Except DecodeError Unit :=
  if sb.blockLog.toNat + sb.dirBlockLog.toNat > 16 then
    .error (.invalidField "sb_dirblklog" "directory block larger than 64 KiB")
  else .ok ()

/-- The root inode's number names an allocation group of the volume. -/
def checkRoot (sb : Superblock) : Except DecodeError Unit :=
  let bits := sb.agBlockLog.toNat + sb.inodesPerBlockLog.toNat
  if bits ≥ 64 || sb.rootIno.toNat >>> bits ≥ sb.agCount.toNat then
    .error (.invalidField "sb_rootino" "root inode outside the volume")
  else .ok ()

/-- The checks that a volume passes before it is mounted, in their order. -/
def validate (sb : Superblock) : Except DecodeError Unit := do
  sb.checkVersion
  sb.checkBlockSize
  sb.checkInodeSize
  sb.checkGroups
  sb.checkDirBlockSize
  sb.checkRoot

/-- Geometry of the volume. Only the checks that keep the shifts meaningful are made, so a
superblock that fails validation may still have one. -/
def geometry (sb : Superblock) : Except DecodeError Geometry := do
  if sb.blockLog.toNat > 16 || 1 <<< sb.blockLog.toNat ≠ sb.blockSize.toNat then
    throw (.invalidField "sb_blocklog" "does not match sb_blocksize")
  if sb.agBlockLog.toNat + sb.inodesPerBlockLog.toNat ≥ 64 || sb.inodeLog.toNat > 15 ||
      sb.agBlocks == 0 || sb.agCount == 0 then
    throw (.invalidField "sb_agblklog" "geometry shifts out of range")
  sb.checkDirBlockSize
  return {
    blockSize := sb.blockSize
    blockLog := sb.blockLog
    dataBlocks := sb.dataBlocks
    agBlocks := sb.agBlocks
    agBlockLog := sb.agBlockLog
    agCount := sb.agCount
    inodeSize := sb.inodeSize
    inodeLog := sb.inodeLog
    inodesPerBlockLog := sb.inodesPerBlockLog
    dirBlockLog := sb.dirBlockLog
    dirBlockSize := UInt32.ofNat (sb.blockSize.toNat <<< sb.dirBlockLog.toNat)
    rootIno := sb.rootIno
    isV5 := sb.isV5
    hasFtype := sb.hasFtype }

end Superblock

end XfsVolume
