import XfsVolume.Fields

/-!
# Faults of building a volume

Why a synthetic volume cannot be laid out as asked.
-/

namespace XfsVolume

/-- Reason for which a step of building a volume fails. -/
inductive BuildFault
  | inodeSize (size : Nat)
  | groupsTooSmall
  | dirBlockLog (log : Nat)
  /-- The bytes of the volume are more than an array has. -/
  | imageTooLarge
  /-- A number does not fit the field that holds it. -/
  | numberTooWide
  | groupFull (ag count : Nat)
  | imageFull (count : Nat)
  | noInodeRoom (ag : Nat)
  | forkTooLong (len limit : Nat)
  | inodeOutside (ino : Nat)
  | treeWithoutExtents
  | treeShape (leafCapacity fanout : Nat)
  | emptyExtent (start : Nat)
  | extentOrder (start : Nat)
  | targetLength (len : Nat)
  | nameLength (len : Nat)
  | tooManyInlineEntries
  | inlineTooLong (len : Nat)
  | dataBlockFull (db : Nat)
  | singleBlockFull
  | entriesPerBlock
  | leafFull (count : Nat)
  | nodeShape
  | leafTooLarge
  | nodeTooWide
  /-- The free lengths do not fit their block, which has `size` bytes. -/
  | freeTableFull (size : Nat)
  | noRoot
  deriving DecidableEq

/-- Text of a build fault. -/
def BuildFault.message : BuildFault → String
  | inodeSize size => s!"unsupported inode size {size}"
  | groupsTooSmall => "allocation groups too small"
  | dirBlockLog log => s!"dir_blk_log {log} too large"
  | imageTooLarge => "capacity overflow"
  | numberTooWide => "out of range integral type conversion attempted"
  | groupFull ag count => s!"AG {ag} cannot hold {count} more blocks"
  | imageFull count => s!"image full: no AG holds {count} contiguous blocks"
  | noInodeRoom ag => s!"AG {ag} has no room for inodes"
  | forkTooLong len limit => s!"fork of {len} bytes exceeds the {limit}-byte literal area"
  | inodeOutside ino => s!"inode {ino} lies outside the image"
  | treeWithoutExtents => "a btree fork needs at least one extent"
  | treeShape leafCapacity fanout =>
    "degenerate btree shape BtreeShape \x7b " ++
      s!"leaf_capacity: {leafCapacity}, fanout: {fanout}" ++ " \x7d"
  | emptyExtent start => s!"zero-length extent at {start}"
  | extentOrder start => s!"extents overlap or are unsorted at {start}"
  | targetLength len => s!"symlink target length {len} outside 1..=1024"
  | nameLength len => s!"bad entry name length {len}"
  | tooManyInlineEntries => "too many shortform entries"
  | inlineTooLong len => s!"shortform directory of {len} bytes does not fit the literal area"
  | dataBlockFull db => s!"entries overflow directory data block {db}"
  | singleBlockFull => "entries do not fit a single directory block"
  | entriesPerBlock => "need room for at least two entries per block"
  | leafFull count => s!"{count} leaf entries do not fit a leaf1 block"
  | nodeShape => "degenerate node shape"
  | leafTooLarge => "leaf capacity exceeds the block"
  | nodeTooWide => "fanout exceeds the block"
  | freeTableFull size =>
    s!"range end index {size + 2} out of range for slice of length {size}"
  | noRoot => "root inode not set"

/-- `n`, if `bits` bits hold it. -/
def fitting (bits n : Nat) : Except BuildFault Nat :=
  if n < 1 <<< bits then .ok n else .error .numberTooWide

end XfsVolume
