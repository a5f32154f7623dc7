import XfsVolume.Extent.Basic
import XfsVolume.Partition

/-!
# Extent trees on disk

A fork with many extents holds the root of a search tree. The root is in the inode, with its
pointers after the room for all the keys that the fork could hold; the other nodes fill a block
each. A node at level zero holds extents; any other holds, per child, the first file block below it
and the child's address. Nodes of one level are linked in both directions.
-/

namespace XfsVolume

/-- The mark `BMAP` of nodes without checksums. -/
def treeMagic : UInt32 := 0x424D4150

/-- The mark `BMA3` of nodes with checksums. -/
def treeMagicCrc : UInt32 := 0x424D4133

/-- Header length of nodes without checksums. -/
def nodeHeaderLength : Nat := 24

/-- Header length of nodes with checksums. -/
def nodeHeaderLengthCrc : Nat := 72

/-- A child of a tree node. -/
structure TreeLink where
  /-- First file block below the child. -/
  key : Nat
  address : Nat
  deriving DecidableEq

/-- Root of an extent tree. -/
structure TreeRoot where
  level : Nat
  links : List TreeLink
  deriving DecidableEq

/-- What a tree node holds. -/
inductive TreeBody
  | interior (links : List TreeLink)
  | leaf (extents : List Extent)
  deriving DecidableEq

/-- A tree node that fills a block. -/
structure TreeNode where
  level : Nat
  /-- Address of the node before it on its level. -/
  left : Nat
  /-- Address of the node after it on its level. -/
  right : Nat
  /-- The header has checksum fields. -/
  crc : Bool
  body : TreeBody
  deriving DecidableEq

/-- True when each number is smaller than the next. -/
def increasing : List Nat → Bool
  | a :: b :: rest => a < b && increasing (b :: rest)
  | _ => true

/-- Index of the last key at or below `target`, or of the first key when all are larger. -/
def childIndex (keys : List Nat) (target : Nat) : Nat :=
  partitionPoint (· ≤ target) keys - 1

/-- The `n` keys from `keyOff` on with the `n` addresses from `addressOff` on. -/
def decodeLinks (b : ByteArray) (keyOff addressOff : Nat) :
    Nat → Except DecodeError (List TreeLink)
  | 0 => .ok []
  | n + 1 => do
    let key ← readU64 b keyOff
    let address ← readU64 b addressOff
    let links ← decodeLinks b (keyOff + 8) (addressOff + 8) n
    return { key := key.toNat, address := address.toNat } :: links

/-- As `decodeLinks`, with keys that must increase. -/
def sortedLinks (b : ByteArray) (keyOff addressOff n : Nat) :
    Except DecodeError (List TreeLink) := do
  let links ← decodeLinks b keyOff addressOff n
  if increasing (links.map TreeLink.key) then return links
  else throw (.invalidField "bmbt_key" "keys not strictly increasing")

/-- Refuses a node that claims no records or more than fit. -/
def checkRecordCount (count limit : Nat) : Except DecodeError Unit :=
  if count = 0 || count > limit then
    .error (.invalidField "bb_numrecs" "record count outside 1..=maxrecs")
  else .ok ()

/-- Root held by a fork. -/
def TreeRoot.decode (fork : ByteArray) : Except DecodeError TreeRoot := do
  let level ← readU16 fork 0
  let count := (← readU16 fork 2).toNat
  let limit := (fork.size - 4) / 16
  if level == 0 then
    throw (.invalidField "bb_level" "inline root must be an interior node")
  checkRecordCount count limit
  let links ← sortedLinks fork 4 (4 + limit * 8) count
  return { level := level.toNat, links }

/-- Node held by a block. -/
def TreeNode.decode (block : ByteArray) : Except DecodeError TreeNode := do
  let magic ← readU32 block 0
  if magic ≠ treeMagic && magic ≠ treeMagicCrc then
    throw (.invalidMagic treeMagic.toNat magic.toNat)
  let crc := magic == treeMagicCrc
  let header := if crc then nodeHeaderLengthCrc else nodeHeaderLength
  let level ← readU16 block 4
  let count := (← readU16 block 6).toNat
  let left ← readU64 block 8
  let right ← readU64 block 16
  let limit := (block.size - header) / 16
  checkRecordCount count limit
  let body ←
    if level == 0 then TreeBody.leaf <$> Extent.decodeList block header count
    else TreeBody.interior <$> sortedLinks block header (header + limit * 8) count
  return { level := level.toNat, left := left.toNat, right := right.toNat, crc, body }

end XfsVolume
