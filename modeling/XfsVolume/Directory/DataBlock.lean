import XfsVolume.Bytes
import XfsVolume.Directory.NameHash

/-!
# Data blocks of a directory

A data block is a header and then slots without gaps: entries, and markers of free space. An entry
is an inode number, a name, the file type where the volume records it, and its own offset, rounded
up to eight bytes; a free marker is told from an entry by its first two bytes. The single block of a
small directory ends in the hash index and a tail, which bound its slots; in other data blocks the
slots fill the block.
-/

namespace XfsVolume

/-- First two bytes of a free marker. -/
def freeTag : UInt16 := 0xFFFF

/-- Bytes of a hash entry. -/
def hashEntryLength : Nat := 8

/-- Which directory format a data block belongs to. -/
inductive DataKind
  /-- The only block of a block directory. -/
  | single
  /-- A data block of a leaf or node directory. -/
  | indexed
  deriving DecidableEq

namespace DataKind

/-- Name of a data block's kind. -/
def name : DataKind → String
  | single => "Block"
  | indexed => "Data"

/-- Mark of a data block without checksums. -/
def magic : DataKind → UInt32
  | single => 0x58443242
  | indexed => 0x58443244

/-- Mark of a data block with checksums. -/
def magicCrc : DataKind → UInt32
  | single => 0x58444233
  | indexed => 0x58444433

end DataKind

/-- Header of a data block. -/
structure DataHeader where
  kind : DataKind
  crc : Bool
  deriving DecidableEq

/-- Header length of a data block; the first slot starts after it. -/
def dataHeaderLength (crc : Bool) : Nat := if crc then 64 else 16

/-- Header length of a data block. -/
def DataHeader.length (h : DataHeader) : Nat := dataHeaderLength h.crc

/-- Header that a mark names. -/
def DataHeader.ofMagic? (magic : UInt32) : Option DataHeader :=
  if magic == DataKind.single.magic then some ⟨.single, false⟩
  else if magic == DataKind.indexed.magic then some ⟨.indexed, false⟩
  else if magic == DataKind.single.magicCrc then some ⟨.single, true⟩
  else if magic == DataKind.indexed.magicCrc then some ⟨.indexed, true⟩
  else none

/-- Header of a data block. -/
def DataHeader.decode (block : ByteArray) : Except DecodeError DataHeader := do
  let magic ← readU32 block 0
  let some header := ofMagic? magic
    | throw (.invalidMagic DataKind.indexed.magic.toNat magic.toNat)
  need block 0 header.length
  return header

/-- Bytes of an entry whose name has `nameLength` bytes. -/
def entryLength (nameLength : Nat) (ftype : Bool) : Nat :=
  alignUp (8 + 1 + nameLength + ftype.toNat + 2) 8

/-- An entry of a data block. -/
structure DataEntry where
  ino : UInt64
  name : Name
  /-- File type code, where the volume records it. -/
  ftype : Option UInt8
  /-- Bytes of the entry. -/
  length : Nat
  deriving DecidableEq

/-- A slot of a data block. -/
inductive DataSlot
  | entry (e : DataEntry)
  | free (length : Nat)
  deriving DecidableEq

namespace DataSlot

/-- Bytes of a slot. -/
def length : DataSlot → Nat
  | entry e => e.length
  | free n => n

/-- The entry in a slot. -/
def entry? : DataSlot → Option DataEntry
  | entry e => some e
  | free _ => none

/-- Slot at `off`, which must end at or before `stop`. -/
def decode (block : ByteArray) (off stop : Nat) (ftype : Bool) : Except DecodeError DataSlot := do
  let region ← readBytes block 0 stop
  if (← readU16 region off) == freeTag then
    let len := (← readU16 region (off + 2)).toNat
    if len < 8 || len % 8 ≠ 0 then
      throw (.invalidField "dup_length" "free length not a non-zero multiple of 8")
    need region off len
    return free len
  let ino ← readU64 region off
  let nameLength := (← readU8 region (off + 8)).toNat
  if nameLength = 0 then throw (.invalidField "dep_namelen" "zero-length name")
  let length := entryLength nameLength ftype
  need region off length
  let name ← readBytes region (off + 9) nameLength
  let code ← if ftype then some <$> readU8 region (off + 9 + nameLength) else pure none
  return entry { ino, name := byteList name, ftype := code, length }

end DataSlot

/-- Slots met by a walk, and the error that ended it before the end of the region. -/
structure SlotWalk where
  slots : List DataSlot
  stoppedBy : Option DecodeError
  deriving DecidableEq

/-- Walks the slots from `off` to `stop` in at most `fuel` steps; a slot has at least eight bytes,
so as many steps as there are bytes are enough. -/
def walkSlotsFor (block : ByteArray) (stop : Nat) (ftype : Bool) : (fuel off : Nat) → SlotWalk
  | 0, _ => ⟨[], none⟩
  | fuel + 1, off =>
    if off < stop then
      match DataSlot.decode block off stop ftype with
      | .error e => ⟨[], some e⟩
      | .ok slot =>
        let rest := walkSlotsFor block stop ftype fuel (off + slot.length)
        ⟨slot :: rest.slots, rest.stoppedBy⟩
    else ⟨[], none⟩

/-- Walks the slots from `off` to `stop`. -/
def walkSlots (block : ByteArray) (off stop : Nat) (ftype : Bool) : SlotWalk :=
  walkSlotsFor block stop ftype (stop - off) off

/-- Entries met by a walk. -/
def SlotWalk.entries (w : SlotWalk) : List DataEntry := w.slots.filterMap DataSlot.entry?

/-- Tail of the single block of a small directory. -/
structure BlockTail where
  /-- Hash entries before the tail. -/
  count : UInt32
  stale : UInt32
  /-- First byte of the hash entries and end of the slots. -/
  indexOffset : Nat
  deriving DecidableEq

/-- Tail of a block whose header has `header` bytes. -/
def BlockTail.decode (block : ByteArray) (header : Nat) : Except DecodeError BlockTail := do
  if block.size < 8 then throw (.insufficientData 8 0 block.size)
  let tail := block.size - 8
  let count ← readU32 block tail
  let stale ← readU32 block (tail + 4)
  let indexLength := count.toNat * hashEntryLength
  if indexLength > tail then
    throw (.invalidField "btp_count" "leaf entries overrun the block")
  let indexOffset := tail - indexLength
  if indexOffset < header || stale > count then
    throw (.invalidField "btp_count" "leaf entries overlap the data header")
  return { count, stale, indexOffset }

end XfsVolume
