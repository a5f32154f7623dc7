import XfsVolume.Bytes

/-!
# Geometry

A volume is cut into allocation groups of equal length. Block addresses and inode numbers carry
the group in their high bits and a place within the group in their low bits; since a group's length
need not be a power of two, an address is not the number of a device block. This module converts
addresses and inode numbers to device blocks, and the addresses of directory entries to blocks of
the directory.

A directory's own blocks are counted in *file blocks*. Its file is cut into three regions: data
from zero, the name index from 32 GiB, and the table of free lengths from 64 GiB.
-/

namespace XfsVolume

/-- First byte of the index region of a directory. -/
def indexRegionByte : Nat := 1 <<< 35

/-- First byte of the free-length region of a directory. -/
def freeRegionByte : Nat := 1 <<< 36

/-- Entry addresses count units of eight bytes. -/
def addressUnit : Nat := 8

/-- Sizes of a volume, and the shifts by which its addresses are taken apart. -/
structure Geometry where
  blockSize : UInt32
  blockLog : UInt8
  dataBlocks : UInt64
  agBlocks : UInt32
  agBlockLog : UInt8
  agCount : UInt32
  inodeSize : UInt16
  inodeLog : UInt8
  inodesPerBlockLog : UInt8
  dirBlockLog : UInt8
  /-- Bytes of a directory block. -/
  dirBlockSize : UInt32
  rootIno : UInt64
  /-- Version 5: checksummed metadata and version 3 inodes. -/
  isV5 : Bool
  /-- Directory entries carry a file type. -/
  hasFtype : Bool
  deriving DecidableEq

/-- Where an inode lies. -/
structure InodeSlot where
  ag : Nat
  agBlock : Nat
  /-- Place of the inode among those of its block. -/
  index : Nat
  block : Nat
  /-- First byte of the inode within its block. -/
  offset : Nat
  deriving DecidableEq

/-- The address that marks the end of a chain of blocks. -/
def nullAddress : Nat := wordLimit - 1

namespace Geometry

/-! ## Directory blocks -/

/-- Blocks of the volume that make up a directory block. -/
def blocksPerDirBlock (geo : Geometry) : Nat := 1 <<< geo.dirBlockLog.toNat

/-- First file block of the index region of a directory. -/
def indexRegion (geo : Geometry) : Nat := indexRegionByte >>> geo.blockLog.toNat

/-- First file block of the free-length region of a directory. -/
def freeRegion (geo : Geometry) : Nat := freeRegionByte >>> geo.blockLog.toNat

/-- First file block of directory block `db`. -/
def dirFileBlock (geo : Geometry) (db : Nat) : Nat :=
  (db <<< geo.dirBlockLog.toNat) % wordLimit

/-- Directory block of an entry address, and the entry's first byte within it. -/
def splitAddress (geo : Geometry) (address : Nat) : Nat × Nat :=
  let byte := address * addressUnit
  (byte >>> (geo.blockLog.toNat + geo.dirBlockLog.toNat),
    byte &&& (geo.dirBlockSize.toNat - 1))

/-! ## Blocks and inodes -/

/-- Device block of a block address. -/
def deviceBlock (geo : Geometry) (address : Nat) : Except DecodeError Nat :=
  let ag := address >>> geo.agBlockLog.toNat
  let agBlock := address % (1 <<< geo.agBlockLog.toNat)
  if ag ≥ geo.agCount.toNat then
    .error (.invalidField "fsblock" "AG number beyond sb_agcount")
  else if agBlock ≥ geo.agBlocks.toNat then
    .error (.invalidField "fsblock" "AG block beyond sb_agblocks")
  else .ok (ag * geo.agBlocks.toNat + agBlock)

/-- Low bits of an inode number that name a place within its allocation group. -/
def inodeBits (geo : Geometry) : Nat := geo.agBlockLog.toNat + geo.inodesPerBlockLog.toNat

/-- Place of inode number `ino`. The byte offset is a 64-bit word, so high bits of the index that
the shift moves past it are lost. -/
def inodeSlot (geo : Geometry) (ino : Nat) : Except DecodeError InodeSlot :=
  let ag := ino >>> geo.inodeBits
  let place := ino % (1 <<< geo.inodeBits)
  let agBlock := place >>> geo.inodesPerBlockLog.toNat
  let index := place % (1 <<< geo.inodesPerBlockLog.toNat)
  let offset := (index <<< geo.inodeLog.toNat) % wordLimit
  if ag ≥ geo.agCount.toNat then
    .error (.invalidField "ino" "AG number beyond sb_agcount")
  else if agBlock ≥ geo.agBlocks.toNat then
    .error (.invalidField "ino" "AG block beyond sb_agblocks")
  else if offset + geo.inodeSize.toNat > geo.blockSize.toNat then
    .error (.invalidField "ino" "inode crosses the end of its block")
  else if index ≥ UInt32.size then .error (.integerConversion "index")
  else .ok { ag, agBlock, index, block := ag * geo.agBlocks.toNat + agBlock, offset }

end Geometry

end XfsVolume
