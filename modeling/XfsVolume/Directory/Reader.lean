import XfsVolume.Directory.BlockCache
import XfsVolume.Directory.IndexBlock
import XfsVolume.Extent.Map

/-!
# Reading directories

A directory has one of four formats, told apart by its fork and its last extent: entries inline in
the inode, a single block, data blocks with one leaf of hashes, or data blocks with a tree of them.
Its blocks are fetched through the block map of its fork. A directory block that lies in one extent
comes from the cache; one that is split over several is put together and not kept.
-/

namespace XfsVolume

/-- Format of a directory. -/
inductive DirFormat
  | inline
  | block
  | leaf
  | node
  deriving DecidableEq

/-- Name of a directory format. -/
def DirFormat.name : DirFormat → String
  | .inline => "Local"
  | .block => "Block"
  | .leaf => "Leaf"
  | .node => "Node"

/-- Directory format with the given name. -/
def DirFormat.ofName? (s : String) : Option DirFormat :=
  [.inline, .block, .leaf, .node].find? (·.name == s)

/-- A directory entry. -/
structure DirEntry where
  ino : Nat
  name : Name
  /-- Unknown on volumes that do not record file types in entries. -/
  kind : FileKind
  deriving DecidableEq

/-- Kind that the file type code of an entry names. -/
def kindOfCode (code : Option UInt8) : FileKind :=
  match code with
  | some c => FileKind.ofCode c
  | none => .unknown

/-- The entry stored in a slot of a data block. -/
def DataEntry.toDirEntry (e : DataEntry) : DirEntry where
  ino := e.ino.toNat
  name := e.name
  kind := kindOfCode e.ftype

/-- A computation that reads directory blocks through a cache. Faults leave the cache as it is. -/
abbrev CacheM := ExceptT Fault (StateM BlockCache)

/-- The fault of damage to a directory at file block `fb`. -/
def dirFault (fb : Nat) (flaw : DirectoryFlaw) : Fault := .corruptDirectory fb flaw

/-- A decoded structure of block `fb` of directory `dir`, or the fault of its damage. -/
def decodedIn {α : Type} (dir : Inode) (fb : Nat) (r : Except DecodeError α) : Except Fault α :=
  r.mapError fun e => dirFault fb (.decode dir.ino.toNat e)

namespace Medium

/-- A run of blocks, kept or read. -/
def cachedBlocks (m : Medium) (start count : Nat) : CacheM ByteArray := fun cache =>
  let (r, cache) := cache.get m.device start count
  (r.mapError Fault.io, cache)

/-- Format of directory `dir`. -/
def dirFormat (m : Medium) (dir : Inode) : Except Fault DirFormat := do
  if !dir.isDirectory then throw .notDirectory
  match dir.format with
  | .inline => return .inline
  | .extents | .btree =>
    if dir.extents.toNat ≤ 1 then return .block
    let some last := ← m.lastExtent? dir
      | throw (dirFault 0 (.noExtents dir.ino.toNat))
    let run := m.geometry.blocksPerDirBlock
    if last.stop ≤ run then return .block
    else if last.stop = m.geometry.indexRegion + run then return .leaf
    else return .node
  | .dev | .uuid => throw (.corruptInode dir.ino.toNat (.forkOnDirectory dir.format))

/-- A fault met while a directory's own block `fb` is mapped; directories have no holes. -/
def dirMapFault (dir : Inode) (fb : Nat) : Fault → Fault
  | .extentNotFound _ => dirFault fb (.unmapped dir.ino.toNat)
  | fault => fault

/-- The `count` blocks of `dir` from file block `fb + k` on, mapped one by one. -/
def dirBlockPieces (m : Medium) (dir : Inode) (fb : Nat) :
    (count k : Nat) → Except Fault ByteArray
  | 0, _ => .ok ByteArray.empty
  | count + 1, k => do
    let mapping ← (m.mapBlock dir (fb + k)).mapError (dirMapFault dir fb)
    let piece ← m.readBlock mapping.physical
    return piece ++ (← m.dirBlockPieces dir fb count (k + 1))

/-- Directory block of `dir` at file block `fb`. -/
def readDirBlock (m : Medium) (dir : Inode) (fb : Nat) : CacheM ByteArray := do
  let run := m.geometry.blocksPerDirBlock
  let extent ← (m.findExtent dir fb).mapError (dirMapFault dir fb)
  if extent.stop ≥ fb + run then
    let mapping ← m.mappingIn extent fb
    if mapping.physical + run > m.device.blockCount then throw (dirFault fb .pastDevice)
    m.cachedBlocks mapping.physical run
  else m.dirBlockPieces dir fb run 0

/-! ## Entries and leaves -/

/-- Entry of `dir` at `address`. -/
def entryAt (m : Medium) (dir : Inode) (address : UInt32) : CacheM DirEntry := do
  let (db, off) := m.geometry.splitAddress address.toNat
  let fb := m.geometry.dirFileBlock db
  if fb ≥ m.geometry.indexRegion then throw (dirFault fb (.addressPastData address.toNat))
  let block ← m.readDirBlock dir fb
  let header ← decodedIn dir fb (DataHeader.decode block)
  if header.kind ≠ .indexed || off < header.length then
    throw (dirFault fb (.addressInHeader address.toNat))
  match ← decodedIn dir fb (DataSlot.decode block off block.size m.geometry.hasFtype) with
  | .entry e => return e.toDirEntry
  | .free _ => throw (dirFault fb (.addressFree address.toNat))

/-- Leaf of `dir` at file block `fb`, which must be of the given kind, with its entries. -/
def readLeaf (m : Medium) (dir : Inode) (fb : Nat) (kind : LeafKind) :
    CacheM (LeafHeader × List HashEntry) := do
  let block ← m.readDirBlock dir fb
  let header ← decodedIn dir fb (LeafHeader.decode block)
  if header.kind ≠ kind then
    throw (dirFault fb (.leafKind dir.ino.toNat header.kind kind))
  let entries ← decodedIn dir fb (header.entries block)
  return (header, entries)

end Medium

end XfsVolume
