import XfsVolume.Directory.DataBlock
import XfsVolume.Directory.Flaw

/-!
# Index blocks of a directory

The name index maps hashes to the addresses of entries, in the order of the hashes. A leaf directory
has one leaf; a node directory has a chain of leaves below a tree of nodes, each node entry giving
the largest hash below a child. An address of zero marks a stale entry.
-/

namespace XfsVolume

/-- Deepest tree of node blocks. -/
def maxNodeDepth : Nat := 5

namespace LeafKind

/-- Mark of a leaf without checksums. -/
def magic : LeafKind → UInt16
  | single => 0xD2F1
  | chained => 0xD2FF

/-- Mark of a leaf with checksums. -/
def magicCrc : LeafKind → UInt16
  | single => 0x3DF1
  | chained => 0x3DFF

end LeafKind

/-- Mark of a node without checksums. -/
def nodeMagic : UInt16 := 0xFEBE

/-- Mark of a node with checksums. -/
def nodeMagicCrc : UInt16 := 0x3EBE

/-- Header length of an index block. -/
def indexHeaderLength (crc : Bool) : Nat := if crc then 64 else 16

/-- Offset of the entry count of an index block. -/
def indexCountOffset (crc : Bool) : Nat := if crc then 56 else 12

/-- A hash and the address of an entry whose name has it. -/
structure HashEntry where
  hash : UInt32
  /-- Address in units of eight bytes; zero when stale. -/
  address : UInt32
  deriving DecidableEq

namespace HashEntry

/-- True when the entry was removed. -/
def isStale (e : HashEntry) : Bool := e.address == 0

/-- The `n` hash entries from `off` on, all of which lie in the block. -/
def decodeRun (block : ByteArray) (off : Nat) : Nat → Except DecodeError (List HashEntry)
  | 0 => .ok []
  | n + 1 => do
    let hash ← readU32 block off
    let address ← readU32 block (off + 4)
    let rest ← decodeRun block (off + hashEntryLength) n
    return { hash, address } :: rest

/-- The `count` hash entries from `off` on. -/
def decodeList (block : ByteArray) (off count : Nat) : Except DecodeError (List HashEntry) := do
  if count * hashEntryLength ≥ wordLimit then throw (.integerConversion "leaf count")
  need block off (count * hashEntryLength)
  decodeRun block off count

end HashEntry

/-- Mark of an index block. -/
def indexMagic (block : ByteArray) : Except DecodeError UInt16 := readU16 block 8

/-- Header of a leaf. -/
structure LeafHeader where
  kind : LeafKind
  crc : Bool
  /-- File block of the next leaf; zero at the end. -/
  next : UInt32
  /-- File block of the leaf before; zero at the start. -/
  prev : UInt32
  count : UInt16
  stale : UInt16
  deriving DecidableEq

namespace LeafHeader

/-- Header length of a leaf. -/
def length (h : LeafHeader) : Nat := indexHeaderLength h.crc

/-- Kind of leaf that a mark names, and whether it has checksums. -/
def ofMagic? (magic : UInt16) : Option (LeafKind × Bool) :=
  if magic == LeafKind.single.magic then some (.single, false)
  else if magic == LeafKind.chained.magic then some (.chained, false)
  else if magic == LeafKind.single.magicCrc then some (.single, true)
  else if magic == LeafKind.chained.magicCrc then some (.chained, true)
  else none

/-- End of the room for hash entries. The leaf of a leaf directory ends in the table of free
lengths, two bytes each, and their number. -/
def entryLimit (block : ByteArray) (kind : LeafKind) : Except DecodeError Nat := do
  match kind with
  | .chained => return block.size
  | .single =>
    if block.size < 4 then throw (.insufficientData 4 0 block.size)
    let tail := block.size - 4
    let tableLength := (← readU32 block tail).toNat * 2
    if tableLength > tail then
      throw (.invalidField "ltp_bestcount" "bests table overruns the block")
    return tail - tableLength

/-- Header of a leaf whose entries fit the room for them. -/
def decode (block : ByteArray) : Except DecodeError LeafHeader := do
  let magic ← indexMagic block
  let some (kind, crc) := ofMagic? magic
    | throw (.invalidMagic LeafKind.single.magic.toNat magic.toNat)
  need block 0 (indexHeaderLength crc)
  let count ← readU16 block (indexCountOffset crc)
  let stale ← readU16 block (indexCountOffset crc + 2)
  let limit ← entryLimit block kind
  if indexHeaderLength crc + count.toNat * hashEntryLength > limit || stale > count then
    throw (.invalidField "leaf_count" "entries overrun the leaf block")
  let next ← readU32 block 0
  let prev ← readU32 block 4
  return { kind, crc, next, prev, count, stale }

/-- Hash entries of the leaf with this header. -/
def entries (h : LeafHeader) (block : ByteArray) : Except DecodeError (List HashEntry) :=
  HashEntry.decodeList block h.length h.count.toNat

end LeafHeader

/-- A child of a node block. -/
structure NodeEntry where
  /-- Largest hash below the child. -/
  hash : UInt32
  /-- File block of the child. -/
  child : UInt32
  deriving DecidableEq

/-- A node block. -/
structure HashNode where
  crc : Bool
  next : UInt32
  prev : UInt32
  level : Nat
  entries : List NodeEntry
  deriving DecidableEq

namespace HashNode

/-- The `n` node entries from `off` on. -/
def decodeEntries (block : ByteArray) (off : Nat) : Nat → Except DecodeError (List NodeEntry)
  | 0 => .ok []
  | n + 1 => do
    let hash ← readU32 block off
    let child ← readU32 block (off + 4)
    let rest ← decodeEntries block (off + 8) n
    return { hash, child } :: rest

/-- Node held by a block. -/
def decode (block : ByteArray) : Except DecodeError HashNode := do
  let magic ← indexMagic block
  if magic ≠ nodeMagic && magic ≠ nodeMagicCrc then
    throw (.invalidMagic nodeMagic.toNat magic.toNat)
  let crc := magic == nodeMagicCrc
  let header := indexHeaderLength crc
  need block 0 header
  let count := (← readU16 block (indexCountOffset crc)).toNat
  let level := (← readU16 block (indexCountOffset crc + 2)).toNat
  if count = 0 || header + count * 8 > block.size then
    throw (.invalidField "da_node_count" "entry count outside the block")
  if level = 0 || level > maxNodeDepth then
    throw (.invalidField "da_node_level" "level outside 1..=5")
  let entries ← decodeEntries block header count
  let next ← readU32 block 0
  let prev ← readU32 block 4
  return { crc, next, prev, level, entries }

/-- Child to search for `hash`: the first whose largest hash is not below it, or the last. -/
def childFor (entries : List NodeEntry) (hash : UInt32) : Option NodeEntry :=
  (entries.find? (hash ≤ ·.hash)).or entries.getLast?

end HashNode

end XfsVolume
