import XfsVolume.Inode.Basic
import XfsVolume.Superblock

/-!
# Shape of a synthetic volume

A synthetic volume is laid out from a handful of choices. Everything else about its shape follows
from them, and is computed here.
-/

namespace XfsVolume

/-- Block size of a synthetic volume. -/
def imageBlockSize : Nat := 4096

/-- Base-two logarithm of the block size of a synthetic volume. -/
def imageBlockLog : Nat := 12

/-- Seconds of every timestamp on a synthetic volume. -/
def imageTime : Nat := 1700000000

/-- Owner of every inode of a synthetic volume. -/
def imageUid : Nat := 1000

/-- Group of every inode of a synthetic volume. -/
def imageGid : Nat := 1000

/-- Choices from which a synthetic volume is laid out. -/
structure ImageOptions where
  inodeSize : Nat := 512
  agBlocks : Nat := 200
  agCount : Nat := 2
  dirBlockLog : Nat := 0
  isV5 : Bool := true
  /-- Directory entries carry a file type. -/
  ftype : Bool := true
  /-- Give each volume block of a directory block an extent of its own, with a gap after it. -/
  scatter : Bool := false
  deriving DecidableEq

namespace ImageOptions

/-- A version 4 volume with small inodes and no file types in its directories. -/
def v4 : ImageOptions := { inodeSize := 256, isV5 := false, ftype := false }

/-- Bits of a block address that name a block of an allocation group. -/
def agBlockLog (o : ImageOptions) : Nat := ceilLog2 o.agBlocks

def inodeLog (o : ImageOptions) : Nat := Nat.log2 o.inodeSize

def inodesPerBlockLog (o : ImageOptions) : Nat := imageBlockLog - o.inodeLog

/-- Inodes of a block. -/
def inodesPerBlock (o : ImageOptions) : Nat := 1 <<< o.inodesPerBlockLog

/-- Bits of an inode number that name a place in its allocation group. -/
def inodeBits (o : ImageOptions) : Nat := o.agBlockLog + o.inodesPerBlockLog

/-- Blocks of the volume. -/
def totalBlocks (o : ImageOptions) : Nat := o.agBlocks * o.agCount

/-- Volume blocks of a directory block. -/
def blocksPerDirBlock (o : ImageOptions) : Nat := 1 <<< o.dirBlockLog

/-- Bytes of a directory block. -/
def dirBlockSize (o : ImageOptions) : Nat := imageBlockSize <<< o.dirBlockLog

/-- Bytes of the core of an inode. -/
def coreLength (o : ImageOptions) : Nat := if o.isV5 then coreLengthV3 else coreLengthV2

/-- Bytes of an inode's fork. -/
def literalLength (o : ImageOptions) : Nat := o.inodeSize - o.coreLength

/-- First byte of the block with the given address. Offsets are counted without a limit and not in a
word, which would wrap. The two agree on every address in a volume that can be built, as that is
shorter than 2^63 bytes. -/
def blockOffset (o : ImageOptions) (address : Nat) : Nat :=
  ((address >>> o.agBlockLog) * o.agBlocks + address % (1 <<< o.agBlockLog)) * imageBlockSize

/-- First byte of inode `ino`, counted as that of a block is. -/
def inodeOffset (o : ImageOptions) (ino : Nat) : Nat :=
  let place := ino % (1 <<< o.inodeBits)
  let block := (ino >>> o.inodeBits) * o.agBlocks + place / o.inodesPerBlock
  block * imageBlockSize + ((place % o.inodesPerBlock) <<< o.inodeLog)

end ImageOptions

end XfsVolume
