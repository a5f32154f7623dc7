import XfsVolume.Directory.Lookup

/-!
# Listing a directory

A listing is a sequence of steps, each from a cursor to an entry and the cursor after it. In an
inline or a block directory a cursor counts entries. In a leaf directory it is a slot of the hash
index, and in a node directory a leaf and a slot: the low 32 bits are the slot, and the bits above
are one more than the leaf's place in the index region, zero standing for the leftmost leaf. Stale
slots are passed over.
-/

namespace XfsVolume

/-- A place in a listing; zero is its start. -/
abbrev DirCursor := Nat

/-- Bits of a node directory's cursor that hold the slot. -/
def slotBits : Nat := 32

namespace Medium

/-- Entry of an inline directory at `cursor`. -/
def nextInline (m : Medium) (dir : Inode) (cursor : DirCursor) :
    Except Fault (Option (DirEntry × DirCursor)) := do
  let listing ← m.inlineListing dir
  return listing[cursor]?.map fun e => (e, cursor + 1)

/-- Entry of a block directory at `cursor`. -/
def nextBlock (m : Medium) (dir : Inode) (cursor : DirCursor) :
    CacheM (Option (DirEntry × DirCursor)) := do
  let walk ← m.blockWalk dir
  match walk.entries[cursor]? with
  | some e => return some (e.toDirEntry, cursor + 1)
  | none => walkEnd dir walk

/-- First live hash entry of a list whose first slot has index `slot`, and its index. -/
def liveFrom : (slot : Nat) → List HashEntry → Option (HashEntry × Nat)
  | _, [] => none
  | slot, e :: rest => if e.isStale then liveFrom (slot + 1) rest else some (e, slot)

/-- The entry of the first live slot at or after `slot`, and that slot. -/
def liveEntryFrom (m : Medium) (dir : Inode) (entries : List HashEntry) (slot : Nat) :
    CacheM (Option (DirEntry × Nat)) := do
  match liveFrom slot (entries.drop slot) with
  | some (e, index) => return some (← m.entryAt dir e.address, index)
  | none => return none

/-- Entry of a leaf directory at or after `cursor`. -/
def nextLeaf (m : Medium) (dir : Inode) (cursor : DirCursor) :
    CacheM (Option (DirEntry × DirCursor)) := do
  let (_, entries) ← m.readLeaf dir m.geometry.indexRegion .single
  match ← m.liveEntryFrom dir entries cursor with
  | some (entry, slot) => return some (entry, slot + 1)
  | none => return none

/-- Entry of a node directory at or after slot `slot` of the leaf at file block `fb`, following at
most `links` links. -/
def nextInChain (m : Medium) (dir : Inode) :
    (links fb slot : Nat) → CacheM (Option (DirEntry × DirCursor))
  | links, fb, slot => do
    let (header, entries) ← m.readLeaf dir fb .chained
    match ← m.liveEntryFrom dir entries slot with
    | some (entry, slot) =>
      return some (entry, ((fb - m.geometry.indexRegion + 1) <<< slotBits) + (slot + 1))
    | none =>
      if header.next == 0 then return none
      else
        match links with
        | 0 => throw (dirFault fb .chainEndless)
        | links + 1 =>
          let next := header.next.toNat
          m.checkIndexRegion dir next
          m.nextInChain dir links next 0

/-- Entry of a node directory at or after `cursor`. -/
def nextNode (m : Medium) (dir : Inode) (cursor : DirCursor) :
    CacheM (Option (DirEntry × DirCursor)) := do
  let slot := cursor % (1 <<< slotBits)
  let place := cursor >>> slotBits
  let fb ←
    if place = 0 then m.indexLeaf dir List.head?
    else do
      let fb := m.geometry.indexRegion + place - 1
      m.checkIndexRegion dir fb
      pure fb
  m.nextInChain dir (m.maxLeafLinks dir) fb slot

/-- Entry of a directory of the given format at or after `cursor`, and the cursor after it. -/
def nextEntryAs (m : Medium) (format : DirFormat) (dir : Inode) (cursor : DirCursor) :
    CacheM (Option (DirEntry × DirCursor)) := do
  match format with
  | .inline => m.nextInline dir cursor
  | .block => m.nextBlock dir cursor
  | .leaf => m.nextLeaf dir cursor
  | .node => m.nextNode dir cursor

/-- Entry of a directory at or after `cursor`, and the cursor after it. -/
def nextEntry (m : Medium) (dir : Inode) (cursor : DirCursor) :
    CacheM (Option (DirEntry × DirCursor)) := do
  m.nextEntryAs (← m.dirFormat dir) dir cursor

/-! ## Whole listings -/

/-- More steps than any listing that ends takes: one for each slot of each leaf that the index
region has room for, and one for its end. -/
def listingSteps (m : Medium) : Nat :=
  (m.geometry.freeRegion - m.geometry.indexRegion + 1) <<< 16

/-- Entries, and the cursors after them, that `step` gives from `cursor` on. -/
def listFrom (step : DirCursor → CacheM (Option (DirEntry × DirCursor))) :
    (fuel : Nat) → DirCursor → List (DirEntry × DirCursor) → CacheM (List (DirEntry × DirCursor))
  | 0, _, _ => throw (dirFault 0 .chainEndless)
  | fuel + 1, cursor, acc => do
    match ← step cursor with
    | none => return acc.reverse
    | some (entry, next) => listFrom step fuel next ((entry, next) :: acc)

/-- Every entry of a directory, in the order of the steps. -/
def readAll (m : Medium) (dir : Inode) : CacheM (List DirEntry) := do
  let format ← m.dirFormat dir
  return (← listFrom (m.nextEntryAs format dir) m.listingSteps 0 []).map Prod.fst

end Medium

end XfsVolume
