import XfsVolume.Directory.NameHash
import XfsVolume.Image.Tree
import XfsVolume.Volume.Symlink

/-!
# Files of a synthetic volume

Regular files with given contents or with blocks filled by a pattern, symlinks stored in their inode
or in a block, and device files.
-/

namespace XfsVolume

/-- The byte that fills file block `logical` of a patterned file. -/
def blockPattern (logical : Nat) : UInt8 := UInt8.ofNat (logical % 251 + 1)

/-- An extent asked for in a patterned file. -/
structure ExtentDraft where
  start : Nat
  count : Nat
  unwritten : Bool
  deriving DecidableEq

/-- Permissions of the regular files written. -/
def filePermissions : UInt16 := 0o644

/-- Permissions of the symlinks written. -/
def linkPermissions : UInt16 := 0o777

/-- The mode of a file of the given kind and permissions. -/
def modeOf (kind : FileKind) (permissions : UInt16) : UInt16 := kind.modeBits ||| permissions

/-- The block that holds the target of a symlink. -/
def encodeTarget (o : ImageOptions) (owner : Nat) (target : ByteArray) : ByteArray :=
  if o.isV5 then
    overwrite (blockOf imageBlockSize
      [⟨0, 4, linkMagic.toNat⟩, ⟨4, 4, 0⟩, ⟨8, 4, target.size⟩, ⟨32, 8, owner⟩])
      linkHeaderLength target
  else overwrite (zeros imageBlockSize) 0 target

namespace BuildM

/-- A regular file with the given contents, in one extent. -/
def addFile (data : ByteArray) : BuildM Nat := do
  let ino ← reserve
  let count ← fitting 32 ((data.size + imageBlockSize - 1) / imageBlockSize)
  let extents ←
    if count = 0 then pure []
    else do
      let address ← allocate count
      writeBlocks address data
      pure [{ start := 0, address, count, unwritten := false : Extent }]
  let fork ← writeFork ino extents none
  writeInode ino {
    mode := modeOf .regular filePermissions
    format := fork.format
    size := data.size
    blocks := count + fork.treeBlocks
    extents := extents.length
    nlink := 1
    fork := fork.bytes }
  return ino

/-- Fills the `count` blocks from `address` on, which hold the file blocks from `logical` on, with
their pattern. -/
def fillPattern (address logical : Nat) : (count : Nat) → BuildM Unit
  | 0 => return
  | count + 1 => do
    writeBlocks address (filled imageBlockSize (blockPattern logical))
    fillPattern (address + 1) (logical + 1) count

/-- Room for the extents asked for, filled with the pattern. Extents must be non-empty and in order
after `prevEnd`. -/
def patternedExtents : (prevEnd : Option Nat) → List ExtentDraft → BuildM (List Extent)
  | _, [] => return []
  | prevEnd, e :: rest => do
    if e.count = 0 then throw (.emptyExtent e.start)
    if prevEnd.any (e.start < ·) then throw (.extentOrder e.start)
    let address ← allocate e.count
    fillPattern address e.start e.count
    let extents ← patternedExtents (some (e.start + e.count)) rest
    return { start := e.start, address, count := e.count, unwritten := e.unwritten } :: extents

/-- A regular file of `size` bytes with the given extents, filled with the pattern; what lies
between them is a hole. The extents are kept in a tree of the given shape, if any. -/
def addPatterned (size : Nat) (drafts : List ExtentDraft) (shape : Option TreeShape) :
    BuildM Nat := do
  let ino ← reserve
  let extents ← patternedExtents none drafts
  let fork ← writeFork ino extents shape
  let count ← fitting 32 extents.length
  writeInode ino {
    mode := modeOf .regular filePermissions
    format := fork.format
    size
    blocks := extents.foldl (fun n e => n + e.count) fork.treeBlocks
    extents := count
    nlink := 1
    fork := fork.bytes }
  return ino

/-! ## Symlinks -/

/-- Refuses a target that is empty or too long. -/
def checkTarget (target : ByteArray) : BuildM Unit := do
  if target.size = 0 || target.size > maxTargetLength then throw (.targetLength target.size)

/-- A symlink whose target lies in its inode. -/
def addInlineLink (target : ByteArray) : BuildM Nat := do
  checkTarget target
  addInode {
    mode := modeOf .symlink linkPermissions
    format := .inline
    size := target.size
    blocks := 0
    extents := 0
    nlink := 1
    fork := target }

/-- A symlink whose target lies in a block. -/
def addBlockLink (target : ByteArray) : BuildM Nat := do
  checkTarget target
  let o ← options
  let ino ← reserve
  let address ← allocate 1
  writeBlocks address (encodeTarget o ino target)
  let fork ← writeFork ino [{ start := 0, address, count := 1, unwritten := false }] none
  writeInode ino {
    mode := modeOf .symlink linkPermissions
    format := fork.format
    size := target.size
    blocks := 1 + fork.treeBlocks
    extents := 1
    nlink := 1
    fork := fork.bytes }
  return ino

/-- A symlink whose target lies in its inode if it fits. -/
def addLink (target : ByteArray) : BuildM Nat := do
  if target.size ≤ (← options).literalLength then addInlineLink target else addBlockLink target

/-! ## Devices -/

/-- A device, a pipe or a socket of the given mode. -/
def addSpecial (mode : UInt16) (device : UInt32) : BuildM Nat :=
  addInode {
    mode
    format := .dev
    size := 0
    blocks := 0
    extents := 0
    nlink := 1
    fork := (beBytes 4 device.toNat).toByteArray }

end BuildM

end XfsVolume
