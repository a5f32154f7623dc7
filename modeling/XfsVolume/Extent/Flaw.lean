import XfsVolume.Inode.Flaw

/-!
# Flaws of extent lists and extent trees
-/

namespace XfsVolume

/-- What can be wrong with a data fork's extents or with the tree that holds them. -/
inductive TreeFlaw
  | decode (e : DecodeError)
  | emptyExtent (start : Nat)
  | overlap (start prevEnd : Nat)
  /-- An extent's block address names no block. -/
  | extentAddress (start : Nat) (e : DecodeError)
  | beyondVolume (block dataBlocks : Nat)
  | unmappedFork (ino : Nat) (format : ForkFormat)
  | inlineOverflow (ino count forkLen : Nat)
  | inlineList (ino : Nat) (e : DecodeError)
  | inlineRecord (ino index : Nat) (e : DecodeError)
  | root (ino : Nat) (e : DecodeError)
  | rootLevel (ino level : Nat)
  | rootChild
  | nodeChild
  | chainTooLong (extents : Nat)
  /-- A leaf's left link names another block than the one it was reached from. -/
  | leftLink (left expected : Nat)
  | siblingNotLeaf
  | pointer (address : Nat) (e : DecodeError)
  | pointerPastDevice
  | headerVersion
  | nodeLevel (found expected : Nat)
  /-- Any other flaw, in words. -/
  | other (text : String)
  deriving DecidableEq

/-- Text of an extent flaw. -/
def TreeFlaw.message : TreeFlaw → String
  | .decode e => e.message
  | .emptyExtent start => s!"zero-length extent at file block {start}"
  | .overlap start prevEnd =>
    s!"extent at file block {start} overlaps the previous one ending at {prevEnd}"
  | .extentAddress start e => s!"extent at file block {start}: {e.message}"
  | .beyondVolume block dataBlocks => s!"block {block} beyond sb_dblocks {dataBlocks}"
  | .unmappedFork ino format => s!"inode {ino} has a {format.name} fork with no block map"
  | .inlineOverflow ino count forkLen =>
    s!"inode {ino}: {count} extents do not fit a {forkLen}-byte fork"
  | .inlineList ino e => s!"inode {ino} extent list: {e.message}"
  | .inlineRecord ino index e => s!"inode {ino} extent {index}: {e.message}"
  | .root ino e => s!"inode {ino} btree root: {e.message}"
  | .rootLevel ino n => s!"inode {ino} btree root at level {n}"
  | .rootChild => "child index past the root records"
  | .nodeChild => "child index past the node records"
  | .chainTooLong extents => s!"sibling chain longer than {extents} extents"
  | .leftLink left expected =>
    s!"left sibling {hexText left} does not point back to {hexText expected}"
  | .siblingNotLeaf => "sibling is not a leaf"
  | .pointer address e => s!"btree pointer {hexText address}: {e.message}"
  | .pointerPastDevice => "btree pointer beyond the device"
  | .headerVersion => "btree block header does not match the superblock version"
  | .nodeLevel found expected => s!"node at level {found} where {expected} was expected"
  | .other text => text

end XfsVolume
