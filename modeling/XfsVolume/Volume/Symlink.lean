import XfsVolume.Volume.Data

/-!
# Symlinks

The target of a symlink lies in the fork, or in the blocks that the fork maps from file block zero
on. On a version 5 volume each such block starts with a header that says which bytes of the target
it holds and which inode owns it; the header is checked, and is no part of the target.
-/

namespace XfsVolume

/-- Longest target of a symlink. -/
def maxTargetLength : Nat := 1024

/-- The mark `XSLM` of a block that holds part of a target. -/
def linkMagic : UInt32 := 0x58534C4D

/-- Header length of a block that holds part of a target. -/
def linkHeaderLength : Nat := 56

/-- Refuses a block that does not say it holds `count` bytes at `offset` of the target of `ino`. -/
def checkLinkHeader (block : ByteArray) (ino offset count : Nat) :
    Except LinkHeaderFlaw Unit := do
  let word (off : Nat) := (readU32 block off).mapError LinkHeaderFlaw.decode
  let magic ← word 0
  if magic ≠ linkMagic then throw (.badMagic magic.toNat)
  let atOffset := (← word 4).toNat
  let bytes := (← word 8).toNat
  if atOffset ≠ offset || bytes ≠ count then throw (.covers bytes atOffset count offset)
  let owner ← (readU64 block 32).mapError LinkHeaderFlaw.decode
  if owner.toNat ≠ ino then throw (.owner owner.toNat)

namespace Volume

/-- Header length of the blocks that hold targets on this volume. -/
def linkHeader (v : Volume) : Nat := if v.geometry.isV5 then linkHeaderLength else 0

/-- The pieces of a target of which `offset` bytes lie in the file blocks before `logical` and
`remaining` bytes are still to come. -/
def readTargetPieces (v : Volume) (inode : Inode) (logical offset remaining : Nat) :
    Except Fault (List ByteArray) := do
  if _h : remaining = 0 then return []
  else
    let ino := inode.ino.toNat
    let mapping ← (v.mapBlock inode logical).mapError fun
      | .extentNotFound _ => .corruptInode ino (.linkBlockUnmapped logical)
      | fault => fault
    let block ← v.readBlock mapping.physical
    let count := min remaining (block.size - v.linkHeader)
    if _hc : count = 0 then throw (.corruptInode ino .linkBlockEmpty)
    else
      if v.geometry.isV5 then
        (checkLinkHeader block ino offset count).mapError fun flaw =>
          Fault.corruptInode ino (.linkBlock mapping.physical flaw)
      let piece := window block v.linkHeader count
      return piece :: (← v.readTargetPieces inode (logical + 1) (offset + count)
        (remaining - count))
termination_by remaining

/-- Target of a symlink. -/
def readTarget (v : Volume) (inode : Inode) : Except Fault ByteArray := do
  if !inode.isSymlink then throw .notSymlink
  let ino := inode.ino.toNat
  let len := inode.size.toNat
  if len = 0 || len > maxTargetLength then
    throw (.corruptInode ino (.linkLength len maxTargetLength))
  match inode.format with
  | .inline =>
    if len > inode.fork.size then throw (.corruptInode ino .inlineTargetShort)
    return window inode.fork 0 len
  | .extents | .btree => return joinBytes (← v.readTargetPieces inode 0 0 len)
  | .dev | .uuid => throw (.corruptInode ino (.forkOnSymlink inode.format))

/-- Target of symlink `ino`. -/
def readLink (v : Volume) (ino : Nat) : Except Fault ByteArray := do
  v.readTarget (← v.readInode ino)

end Volume

end XfsVolume
