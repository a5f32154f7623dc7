import XfsVolume.Directory.Lookup
import XfsVolume.Image.DirectoryBlock
import XfsVolume.Image.Files

/-!
# Directories of a synthetic volume

A directory is written in the format asked for: its blocks are made from its entries, given room in
the order of their file blocks, and mapped by extents, of which adjoining ones are merged.
-/

namespace XfsVolume

/-- Format in which a directory is written. -/
inductive DirLayout
  | inline
  | block
  | leaf (perBlock : Nat)
  | node (perBlock leafCapacity fanout : Nat)
  deriving DecidableEq

/-- Permissions of the directories written. -/
def dirPermissions : UInt16 := 0o755

/-- Adds `count` blocks from `address` on for the file blocks from `start` on to extents listed last
first, making the last one longer where they continue it. -/
def addRun (start address count : Nat) : List Extent → List Extent
  | e :: rest =>
    if e.start + e.count = start && e.address + e.count = address then
      { e with count := e.count + count } :: rest
    else { start, address, count, unwritten := false } :: e :: rest
  | [] => [{ start, address, count, unwritten := false }]

/-- The blocks that make up a directory in a format other than the inline one, and the number of its
data blocks. -/
def directoryBlocks (o : ImageOptions) (owner : Nat) (entries : List EntryDraft) :
    DirLayout → Except BuildFault (PlacedBlocks × Nat)
  | .inline | .block => do return ([(0, ← singleBlock o owner entries)], 1)
  | .leaf perBlock => do
    let region ← dataRegion o owner entries perBlock
    return (region.blocks ++ [(o.indexBlock 0, ← singleLeaf o owner region)],
      region.blocks.length)
  | .node perBlock leafCapacity fanout => do
    let region ← dataRegion o owner entries perBlock
    let index ← indexBlocks o owner region.hashes leafCapacity fanout
    let free ← freeLengthBlock o owner region.free
    return (region.blocks ++ index ++ [(o.freeBlock, free)], region.blocks.length)

namespace BuildM

/-- Entries with the file types of the inodes written so far. -/
def draftEntries (entries : List (Name × Nat)) : BuildM (List EntryDraft) := do
  let modes := (← get).modes
  entries.mapM fun (name, ino) => do
    if name.isEmpty || name.length > maxNameLength then throw (.nameLength name.length)
    let ftype := ((modes.lookup ino).map fun mode => (FileKind.ofMode mode).code).getD 0
    return { name, ino, ftype }

/-- Gives each volume block of a directory block room of its own, with a gap after it. -/
def scatterBlock (fileBlock : Nat) (data : ByteArray) :
    (count k : Nat) → List Extent → BuildM (List Extent)
  | 0, _, extents => return extents
  | count + 1, k, extents => do
    let address ← allocate 1
    writeBlocks address (window data (k * imageBlockSize) imageBlockSize)
    let _ ← allocate 1
    scatterBlock fileBlock data count (k + 1) (addRun (fileBlock + k) address 1 extents)

/-- Gives a directory block room; the extents are listed last first. -/
def placeBlock (extents : List Extent) (block : Nat × ByteArray) : BuildM (List Extent) := do
  let o ← options
  let count := o.blocksPerDirBlock
  let (fileBlock, data) := block
  if o.scatter && count > 1 then scatterBlock fileBlock data count 0 extents
  else
    let address ← allocate count
    writeBlocks address data
    return addRun fileBlock address count extents

/-- Gives directory blocks room, in the order of their file blocks; the answer is the extents. -/
def placeBlocks (blocks : PlacedBlocks) : BuildM (List Extent) := do
  let sorted := blocks.mergeSort fun a b => a.1 ≤ b.1
  return (← sorted.foldlM placeBlock []).reverse

/-- Writes a directory into inode `ino`. The number of its extents is stored in 32 bits without a
check, as each of them has a block in the image: 2^32 of them are more than any memory holds. -/
def writeDir (ino parent : Nat) (entries : List (Name × Nat)) (layout : DirLayout) :
    BuildM Unit := do
  let drafts ← draftEntries entries
  let o ← options
  let mode := modeOf .directory dirPermissions
  if layout = .inline then
    let stored ← encodeInline o parent drafts
    writeInode ino {
      mode
      format := .inline
      size := stored.length
      blocks := 0
      extents := 0
      nlink := 2
      fork := stored.toByteArray }
  else
    let all := { name := dotName, ino, ftype := FileKind.directory.code } ::
      { name := dotDotName, ino := parent, ftype := FileKind.directory.code } :: drafts
    let (blocks, dataBlocks) ← directoryBlocks o ino all layout
    let extents ← placeBlocks blocks
    let fork ← writeFork ino extents none
    writeInode ino {
      mode
      format := fork.format
      size := dataBlocks * o.dirBlockSize
      blocks := blocks.length * o.blocksPerDirBlock + fork.treeBlocks
      extents := extents.length
      nlink := 2
      fork := fork.bytes }

/-- A directory with the given entries. -/
def addDir (parent : Nat) (entries : List (Name × Nat)) (layout : DirLayout) : BuildM Nat := do
  let ino ← reserve
  writeDir ino parent entries layout
  return ino

end BuildM

end XfsVolume
