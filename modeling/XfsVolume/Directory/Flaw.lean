import XfsVolume.Error.Decode

/-!
# Kinds of hash leaf and directory flaws
-/

namespace XfsVolume

/-- Which directory format a block of hash entries belongs to. -/
inductive LeafKind
  /-- The only leaf of a leaf directory; it ends in the table of free lengths. -/
  | single
  /-- One of the leaves of a node directory. -/
  | chained
  deriving DecidableEq

/-- Name of a leaf kind in messages. -/
def LeafKind.name : LeafKind → String
  | .single => "Leaf1"
  | .chained => "LeafN"

/-- What can be wrong with a directory stored in its inode. -/
inductive InlineDirFlaw
  | tooLong (size : Nat)
  | header (e : DecodeError)
  | entry (offset : Nat) (e : DecodeError)
  deriving DecidableEq

/-- What can be wrong with a directory. -/
inductive DirectoryFlaw
  | decode (ino : Nat) (e : DecodeError)
  | inline (ino : Nat) (flaw : InlineDirFlaw)
  | noExtents (ino : Nat)
  | unmapped (ino : Nat)
  | pastDevice
  | addressPastData (address : Nat)
  | addressInHeader (address : Nat)
  | addressFree (address : Nat)
  | notSingleBlock (ino : Nat)
  | leafKind (ino : Nat) (found expected : LeafKind)
  | outsideLeafRegion (ino : Nat)
  | leafAtLevel (level : Nat)
  | nodeLevel (found expected : Nat)
  | emptyNode
  | chainEndless
  /-- Any other flaw, in words. -/
  | other (text : String)
  deriving DecidableEq

/-- Text of a flaw of a directory stored in its inode. -/
def InlineDirFlaw.message : InlineDirFlaw → String
  | .tooLong size => s!"size {size} exceeds the fork"
  | .header e => e.message
  | .entry offset e => s!"entry at byte {offset}: {e.message}"

/-- Text of a directory flaw. -/
def DirectoryFlaw.message : DirectoryFlaw → String
  | .decode ino e => s!"directory inode {ino}: {e.message}"
  | .inline ino flaw => s!"shortform directory inode {ino}: {flaw.message}"
  | .noExtents ino => s!"directory inode {ino} has no extents"
  | .unmapped ino => s!"directory inode {ino}: block is not mapped"
  | .pastDevice => "directory block past the device end"
  | .addressPastData address => s!"leaf address {hexText address} beyond the data region"
  | .addressInHeader address =>
    s!"leaf address {hexText address} does not point at a data entry"
  | .addressFree address => s!"leaf address {hexText address} points at free space"
  | .notSingleBlock ino =>
    s!"directory inode {ino}: data block where a block directory was expected"
  | .leafKind ino found expected =>
    s!"directory inode {ino}: {found.name} block where {expected.name} was expected"
  | .outsideLeafRegion ino =>
    s!"directory inode {ino}: index pointer outside the leaf region"
  | .leafAtLevel level => s!"leaf block where a level-{level} node was expected"
  | .nodeLevel found expected => s!"node at level {found} where level {expected} was expected"
  | .emptyNode => "empty da node"
  | .chainEndless => "leaf sibling chain does not end"
  | .other text => text

end XfsVolume
