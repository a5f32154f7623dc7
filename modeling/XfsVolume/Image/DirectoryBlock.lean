import XfsVolume.Directory.Inline
import XfsVolume.Directory.IndexBlock
import XfsVolume.Image.Fault
import XfsVolume.Image.Options

/-!
# Writing the blocks of a directory

The forms in which a directory is stored, each made from its list of entries: the inline form, the
data blocks, the leaves with their hash entries, the nodes above them, and the table of free
lengths. Hash entries are sorted by their hash, entries of equal hash staying in stored order.
-/

namespace XfsVolume

/-- An entry to be stored. -/
structure EntryDraft where
  name : Name
  ino : Nat
  /-- File type code. -/
  ftype : UInt8
  deriving DecidableEq

/-- Blocks to be written, each with its first file block. -/
abbrev PlacedBlocks := List (Nat × ByteArray)

/-- Data blocks with the hash entries for what they hold and the free length of each. -/
structure DataRegion where
  blocks : PlacedBlocks
  hashes : List HashEntry
  free : List Nat

/-- A node or leaf of the index: the largest hash below it and its file block. -/
structure IndexChild where
  hash : Nat
  fileBlock : Nat
  deriving DecidableEq

/-- Mark of a block of free lengths without checksums. -/
def freeMagic : UInt32 := 0x58443246

/-- Mark of a block of free lengths with checksums. -/
def freeMagicCrc : UInt32 := 0x58444633

/-- Hash entries in the order of their hashes. -/
def sortHashes (entries : List HashEntry) : List HashEntry :=
  entries.mergeSort fun a b => a.hash ≤ b.hash

/-- The numbers of hash entries, in stored order. -/
def hashNumbers (entries : List HashEntry) : List Nat :=
  entries.flatMap fun e => [e.hash.toNat, e.address.toNat]

/-! ## Inline directories -/

/-- True for inode numbers that need eight bytes. -/
def isWideIno (ino : Nat) : Bool := ino ≥ UInt32.size

/-- Stored form of the entries of an inline directory; `offset` is that of the first in a data
block. -/
def encodeInlineEntries (ftype : Bool) (width : Nat) :
    (offset : Nat) → List EntryDraft → Except BuildFault (List UInt8)
  | _, [] => .ok []
  | offset, e :: rest => do
    let offset ← fitting 16 offset
    let entry := UInt8.ofNat e.name.length :: beBytes 2 offset ++ e.name ++
      (if ftype then [e.ftype] else []) ++ beBytes width e.ino
    return entry ++
      (← encodeInlineEntries ftype width (offset + entryLength e.name.length ftype) rest)

/-- Stored form of an inline directory. -/
def encodeInline (o : ImageOptions) (parent : Nat) (entries : List EntryDraft) :
    Except BuildFault (List UInt8) := do
  let wide := ((parent :: entries.map EntryDraft.ino).filter isWideIno).length
  let width := if wide > 0 then 8 else 4
  if entries.length > 255 then throw .tooManyInlineEntries
  let first := dataHeaderLength o.isV5 + entryLength 1 o.ftype + entryLength 2 o.ftype
  let stored ← encodeInlineEntries o.ftype width first entries
  let fork := UInt8.ofNat entries.length :: UInt8.ofNat (min wide 255) ::
    beBytes width parent ++ stored
  if fork.length > o.literalLength then throw (.inlineTooLong fork.length)
  return fork

/-! ## Data blocks -/

namespace ImageOptions

/-- Address of the entry at byte `off` of directory block `db`. The first byte of the block is a
word; the high bits of a block that starts past it are lost before the address is checked to fit. -/
def entryAddress (o : ImageOptions) (db off : Nat) : Except BuildFault Nat :=
  fitting 32 (((db <<< (imageBlockLog + o.dirBlockLog)) % wordLimit + off) / addressUnit)

/-- First file block of block `index` of the index region. -/
def indexBlock (o : ImageOptions) (index : Nat) : Nat :=
  indexRegionByte / imageBlockSize + index * o.blocksPerDirBlock

/-- First file block of the region of free lengths. -/
def freeBlock (_o : ImageOptions) : Nat := freeRegionByte / imageBlockSize

/-- An empty data block of directory `owner`. -/
def dataBlock (o : ImageOptions) (owner : Nat) (kind : DataKind) : ByteArray :=
  if o.isV5 then blockOf o.dirBlockSize [⟨0, 4, kind.magicCrc.toNat⟩, ⟨40, 8, owner⟩]
  else blockOf o.dirBlockSize [⟨0, 4, kind.magic.toNat⟩]

end ImageOptions

/-- Stored form of an entry at byte `off`. Up to its tag it is padded with zeros, which is what the
block holds there before: blocks are made of zeros, and entries are put one behind the other. -/
def encodeDataEntry (ftype : Bool) (off : Nat) (e : EntryDraft) : List UInt8 :=
  let body := beBytes 8 e.ino ++ UInt8.ofNat e.name.length :: e.name ++
    (if ftype then [e.ftype] else [])
  body ++ List.replicate (entryLength e.name.length ftype - 2 - body.length) 0 ++ beBytes 2 off

/-- Puts entries into `block` from `off` on, ending at or before `stop`. The answer is the block,
the end of the last entry, and the hash entries. -/
def fillEntries (o : ImageOptions) (db stop : Nat) :
    (off : Nat) → ByteArray → List EntryDraft → Except BuildFault (ByteArray × Nat × List HashEntry)
  | off, block, [] => .ok (block, off, [])
  | off, block, e :: rest => do
    let length := entryLength e.name.length o.ftype
    if off + length > stop then throw (.dataBlockFull db)
    let _ ← fitting 16 off
    let address ← o.entryAddress db off
    let block := overwrite block off (encodeDataEntry o.ftype off e).toByteArray
    let (block, last, hashes) ← fillEntries o db stop (off + length) block rest
    return (block, last, { hash := nameHash e.name, address := UInt32.ofNat address } :: hashes)

/-- Puts entries into `block` after its header, with a free marker from the last of them to `stop`.
The answer is the block, the hash entries and the free length. -/
def fillRegion (o : ImageOptions) (db stop : Nat) (block : ByteArray)
    (entries : List EntryDraft) : Except BuildFault (ByteArray × List HashEntry × Nat) := do
  let (block, off, hashes) ← fillEntries o db stop (dataHeaderLength o.isV5) block entries
  let free ← fitting 16 (stop - off)
  if free = 0 then return (block, hashes, 0)
  let largest := if o.isV5 then 48 else 4
  return (writeFields block [⟨off, 2, freeTag.toNat⟩, ⟨off + 2, 2, free⟩, ⟨stop - 2, 2, off⟩,
    ⟨largest, 2, off⟩, ⟨largest + 2, 2, free⟩], hashes, free)

/-- The block of a block directory. -/
def singleBlock (o : ImageOptions) (owner : Nat) (entries : List EntryDraft) :
    Except BuildFault ByteArray := do
  let size := o.dirBlockSize
  let indexLength := 8 + 8 * entries.length
  if size < indexLength + dataHeaderLength o.isV5 then throw .singleBlockFull
  let start := size - indexLength
  let (block, hashes, _) ← fillRegion o 0 start (o.dataBlock owner .single) entries
  return writeFields block (fieldRun start 4 (hashNumbers (sortHashes hashes)) ++
    [⟨size - 8, 4, entries.length⟩, ⟨size - 4, 4, 0⟩])

/-- Data blocks from directory block `db` on, one for each member of `chunks`. -/
def fillBlocks (o : ImageOptions) (owner : Nat) :
    (db : Nat) → List (List EntryDraft) → Except BuildFault DataRegion
  | _, [] => .ok ⟨[], [], []⟩
  | db, chunk :: rest => do
    let (block, hashes, free) ←
      fillRegion o db o.dirBlockSize (o.dataBlock owner .indexed) chunk
    let region ← fillBlocks o owner (db + 1) rest
    return {
      blocks := (db * o.blocksPerDirBlock, block) :: region.blocks
      hashes := hashes ++ region.hashes
      free := free :: region.free }

/-- Data blocks of at most `perBlock` entries each, with the hash entries in order. -/
def dataRegion (o : ImageOptions) (owner : Nat) (entries : List EntryDraft) (perBlock : Nat) :
    Except BuildFault DataRegion := do
  if perBlock < 2 then throw .entriesPerBlock
  let region ← fillBlocks o owner 0 (chunksOf perBlock entries)
  return { region with hashes := sortHashes region.hashes }

/-! ## The index -/

/-- Links and mark of an index block of directory `owner`. -/
def indexFields (o : ImageOptions) (owner : Nat) (magic magicCrc : UInt16) (next prev : Nat) :
    List Field :=
  [⟨0, 4, next⟩, ⟨4, 4, prev⟩] ++
    if o.isV5 then [⟨8, 2, magicCrc.toNat⟩, ⟨48, 8, owner⟩] else [⟨8, 2, magic.toNat⟩]

/-- A leaf of the index. -/
def indexLeafBlock (o : ImageOptions) (owner : Nat) (kind : LeafKind) (next prev : Nat)
    (entries : List HashEntry) (more : List Field) : ByteArray :=
  blockOf o.dirBlockSize (indexFields o owner kind.magic kind.magicCrc next prev ++
    [⟨indexCountOffset o.isV5, 2, entries.length⟩] ++
    fieldRun (indexHeaderLength o.isV5) 4 (hashNumbers entries) ++ more)

/-- The leaf of a leaf directory, with the table of free lengths at its end. That the counts fit the
fields they are stored in is not checked again: entries and table fit the block. -/
def singleLeaf (o : ImageOptions) (owner : Nat) (region : DataRegion) :
    Except BuildFault ByteArray := do
  let size := o.dirBlockSize
  let table := size - 4 - 2 * region.free.length
  if indexHeaderLength o.isV5 + 8 * region.hashes.length > table then
    throw (.leafFull region.hashes.length)
  return indexLeafBlock o owner .single 0 0 region.hashes
    (fieldRun table 2 region.free ++ [⟨size - 4, 4, region.free.length⟩])

/-- A node of the index. -/
def indexNodeBlock (o : ImageOptions) (owner level next prev : Nat) (children : List IndexChild) :
    ByteArray :=
  blockOf o.dirBlockSize (indexFields o owner nodeMagic nodeMagicCrc next prev ++
    [⟨indexCountOffset o.isV5, 2, children.length⟩, ⟨indexCountOffset o.isV5 + 2, 2, level⟩] ++
    fieldRun (indexHeaderLength o.isV5) 4 (children.flatMap fun c => [c.hash, c.fileBlock]))

/-- File blocks of `count` index blocks from place `index` on, each with those before and after
it; zero stands at the ends. -/
def indexPlaces (o : ImageOptions) (index count : Nat) : List (Nat × Nat × Nat) :=
  neighbours 0 0 ((List.range count).map fun i => o.indexBlock (index + i))

/-- Levels of nodes above `children`, in at most `fuel` steps, and the root in the first block of
the index region. Blocks from place `index` on are taken. Each level has fewer nodes than the one
below it, so as many steps as there are children are enough. -/
def indexLevels (o : ImageOptions) (owner fanout : Nat) :
    (fuel level index : Nat) → List IndexChild → PlacedBlocks
  | 0, level, _, children => [(o.indexBlock 0, indexNodeBlock o owner level 0 0 children)]
  | fuel + 1, level, index, children =>
    if children.length ≤ fanout then
      [(o.indexBlock 0, indexNodeBlock o owner level 0 0 children)]
    else
      let chunks := chunksOf fanout children
      let places := (indexPlaces o index chunks.length).zip chunks
      let blocks := places.map fun ((prev, fb, next), chunk) =>
        (fb, indexNodeBlock o owner level next prev chunk)
      let parents := places.map fun ((_, fb, _), chunk) =>
        { hash := (chunk.getLast?.map IndexChild.hash).getD 0, fileBlock := fb : IndexChild }
      blocks ++ indexLevels o owner fanout fuel (level + 1) (index + chunks.length) parents

/-- The index of a node directory: its leaves, after the block left for the root, and its nodes. File
blocks are stored in 32 bits, and no check stands for those that do not fit: the index starts at byte
2^35 of the directory, and one that goes on to file block 2^32 is larger than any memory. -/
def indexBlocks (o : ImageOptions) (owner : Nat) (hashes : List HashEntry)
    (capacity fanout : Nat) : Except BuildFault PlacedBlocks := do
  if capacity < 1 || fanout < 2 then throw .nodeShape
  if indexHeaderLength o.isV5 + 8 * capacity > o.dirBlockSize then throw .leafTooLarge
  if indexHeaderLength o.isV5 + 8 * fanout > o.dirBlockSize then throw .nodeTooWide
  let chunks := chunksOf capacity hashes
  let places := (indexPlaces o 1 chunks.length).zip chunks
  let leaves := places.map fun ((prev, fb, next), chunk) =>
    (fb, indexLeafBlock o owner .chained next prev chunk [])
  let children := places.map fun ((_, fb, _), chunk) =>
    { hash := (chunk.getLast?.map (·.hash.toNat)).getD 0, fileBlock := fb : IndexChild }
  return leaves ++ indexLevels o owner fanout children.length 1 (1 + chunks.length) children

/-- The block of free lengths, which has room for all of them. -/
def freeLengthBlock (o : ImageOptions) (owner : Nat) (free : List Nat) :
    Except BuildFault ByteArray := do
  let n := free.length
  if indexHeaderLength o.isV5 + 2 * n > o.dirBlockSize then throw (.freeTableFull o.dirBlockSize)
  let header : List Field :=
    if o.isV5 then
      [⟨0, 4, freeMagicCrc.toNat⟩, ⟨40, 8, owner⟩, ⟨52, 4, n⟩, ⟨56, 4, n⟩]
    else [⟨0, 4, freeMagic.toNat⟩, ⟨8, 4, n⟩, ⟨12, 4, n⟩]
  return blockOf o.dirBlockSize (header ++ fieldRun (indexHeaderLength o.isV5) 2 free)

end XfsVolume
