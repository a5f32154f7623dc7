import XfsVolume.Extent.Tree
import XfsVolume.Inode.Load

/-!
# The block map of a fork

A file's blocks are found through its fork: in a list of extents stored in the inode, or in a tree.
A file block outside every extent is reported as such; whatever is wrong with the fork itself is
corruption.

A tree is entered by one descent, whose length is the root's level, and then followed along the
links of its leaves. A tree of `n` extents has at most `n` leaves, and no more than the volume has
blocks, so a walk along more links than that is in a loop and is stopped. Extents must be non-empty
and in order without overlap; a look-up checks those it passes.
-/

namespace XfsVolume

/-- Deepest extent tree accepted, the root included. -/
def maxTreeDepth : Nat := 8

/-- A file block and the block of the device that holds it. -/
structure Mapping where
  logical : Nat
  physical : Nat
  /-- Allocated but never written; reads as zeros. -/
  unwritten : Bool
  deriving DecidableEq

/-- A leaf of an extent tree. -/
structure TreeLeaf where
  address : Nat
  /-- Device block of the leaf. -/
  block : Nat
  extents : List Extent
  /-- Address of the next leaf. -/
  right : Nat
  deriving DecidableEq

/-- Outcome of scanning a list of extents for a file block. -/
inductive Scan
  | found (e : Extent)
  /-- An extent past the file block was met. -/
  | passed
  /-- The list ended, the last extent at `prevEnd`. -/
  | ended (prevEnd : Option Nat)
  deriving DecidableEq

/-- What is wrong with an extent that follows one ending at `prevEnd`. -/
def Extent.flawAfter? (e : Extent) (prevEnd : Option Nat) : Option TreeFlaw :=
  if e.count = 0 then some (.emptyExtent e.start)
  else
    match prevEnd with
    | some p => if e.start < p then some (.overlap e.start p) else none
    | none => none

/-- Refuses an extent of `block` that is empty or overlaps the one before it. -/
def Extent.checkAfter (e : Extent) (block : Nat) (prevEnd : Option Nat) : Except Fault Unit :=
  match e.flawAfter? prevEnd with
  | some flaw => .error (.corruptTree block flaw)
  | none => .ok ()

/-- Looks for the extent that covers `logical`, checking each one passed. -/
def scanExtents (block logical : Nat) : Option Nat → List Extent → Except Fault Scan
  | prevEnd, [] => .ok (.ended prevEnd)
  | prevEnd, e :: rest => do
    e.checkAfter block prevEnd
    if e.covers logical then return .found e
    else if e.start > logical then return .passed
    else scanExtents block logical (some e.stop) rest

/-- Checks every extent of a list; the answer is the end of the last one. -/
def checkExtents (block : Nat) : Option Nat → List Extent → Except Fault (Option Nat)
  | prevEnd, [] => .ok prevEnd
  | prevEnd, e :: rest => do
    e.checkAfter block prevEnd
    checkExtents block (some e.stop) rest

namespace Inode

/-- A flaw of the fork itself; it lies in no block of the volume. -/
def treeFault (flaw : TreeFlaw) : Fault := .corruptTree 0 flaw

/-- The fault of asking an unmapped fork for blocks. -/
def unmappedFault (inode : Inode) : Fault :=
  treeFault (.unmappedFork inode.ino.toNat inode.format)

/-- Refuses a fork too short for the extents the inode claims. -/
def checkInlineExtents (inode : Inode) : Except Fault Unit :=
  if inode.extents.toNat * extentLength > inode.fork.size then
    .error (treeFault (.inlineOverflow inode.ino.toNat inode.extents.toNat inode.fork.size))
  else .ok ()

/-- Extents stored in the inode, in stored order. -/
def inlineExtents (inode : Inode) : Except Fault (List Extent) := do
  inode.checkInlineExtents
  (Extent.ofFork inode.fork inode.extents.toNat).mapError fun e =>
    treeFault (.inlineList inode.ino.toNat e)

/-- Root of the inode's extent tree, shallow enough to be descended. -/
def treeRoot (inode : Inode) : Except Fault TreeRoot := do
  let root ← (TreeRoot.decode inode.fork).mapError fun e => treeFault (.root inode.ino.toNat e)
  if root.level ≥ maxTreeDepth then throw (treeFault (.rootLevel inode.ino.toNat root.level))
  return root

end Inode

namespace Medium

/-! ## Following one extent -/

/-- Block that holds file block `logical` according to `e`. -/
def mappingIn (m : Medium) (e : Extent) (logical : Nat) : Except Fault Mapping := do
  let some address := e.addressOf? logical | throw (.extentNotFound logical)
  let physical ← (m.geometry.deviceBlock address).mapError fun err =>
    Fault.corruptTree address (.extentAddress e.start err)
  if physical ≥ m.geometry.dataBlocks.toNat then
    throw (.corruptTree address (.beyondVolume physical m.geometry.dataBlocks.toNat))
  return { logical, physical, unwritten := e.unwritten }

/-! ## Walking a tree -/

/-- Node at `address`, which must be at `level`, and its device block. -/
def readTreeNode (m : Medium) (address level : Nat) : Except Fault (Nat × TreeNode) := do
  let block ← (m.geometry.deviceBlock address).mapError fun e =>
    Fault.corruptTree address (.pointer address e)
  if block ≥ m.geometry.dataBlocks.toNat || block ≥ m.device.blockCount then
    throw (.corruptTree block .pointerPastDevice)
  let bytes ← m.readBlock block
  let node ← (TreeNode.decode bytes).mapError fun e => Fault.corruptTree block (.decode e)
  if node.crc ≠ m.geometry.isV5 then throw (.corruptTree block .headerVersion)
  if node.level ≠ level then throw (.corruptTree block (.nodeLevel node.level level))
  return (block, node)

/-- Leaf reached from the node at `address` and `level`, taking at each node the child whose index
`pick` chooses among its keys. -/
def descendTree (m : Medium) (pick : List Nat → Nat) :
    (level address : Nat) → Except Fault TreeLeaf
  | level, address => do
    let (block, node) ← m.readTreeNode address level
    match node.body with
    | .leaf extents => return { address, block, extents, right := node.right }
    | .interior links =>
      match level with
      | level + 1 =>
        match links[pick (links.map TreeLink.key)]? with
        | some link => m.descendTree pick level link.address
        | none => throw (.corruptTree block .nodeChild)
      | 0 => throw (.corruptTree block .siblingNotLeaf)

/-- Leaf of the inode's tree reached by `pick`. -/
def entryLeaf (m : Medium) (inode : Inode) (pick : List Nat → Nat) : Except Fault TreeLeaf := do
  let root ← inode.treeRoot
  match root.links[pick (root.links.map TreeLink.key)]? with
  | some link => m.descendTree pick (root.level - 1) link.address
  | none => throw (Inode.treeFault .rootChild)

/-- Most links that a walk along the leaves of the inode's tree may follow. -/
def maxLinks (m : Medium) (inode : Inode) : Nat :=
  min inode.extents.toNat m.geometry.dataBlocks.toNat

/-- The fault of a chain of leaves that does not end. -/
def chainFault (inode : Inode) (leaf : TreeLeaf) : Fault :=
  .corruptTree leaf.block (.chainTooLong inode.extents.toNat)

/-- Leaf to the right of `leaf`; it must link back. -/
def rightLeaf (m : Medium) (leaf : TreeLeaf) : Except Fault TreeLeaf := do
  let (block, node) ← m.readTreeNode leaf.right 0
  if node.left ≠ leaf.address then
    throw (.corruptTree block (.leftLink node.left leaf.address))
  match node.body with
  | .leaf extents => return { address := leaf.right, block, extents, right := node.right }
  | .interior _ => throw (.corruptTree block .siblingNotLeaf)

/-- Looks for `logical` from `leaf` on, following at most `links` links. -/
def findFrom (m : Medium) (inode : Inode) (logical : Nat) :
    (links : Nat) → Option Nat → TreeLeaf → Except Fault Extent
  | links, prevEnd, leaf => do
    match ← scanExtents leaf.block logical prevEnd leaf.extents with
    | .found e => return e
    | .passed => throw (.extentNotFound logical)
    | .ended prevEnd =>
      if leaf.right = nullAddress then throw (.extentNotFound logical)
      else
        match links with
        | 0 => throw (chainFault inode leaf)
        | links + 1 => m.findFrom inode logical links prevEnd (← m.rightLeaf leaf)

/-- Last leaf from `leaf` on, following at most `links` links. -/
def lastLeafFrom (m : Medium) (inode : Inode) :
    (links : Nat) → TreeLeaf → Except Fault TreeLeaf
  | links, leaf =>
    if leaf.right = nullAddress then .ok leaf
    else
      match links with
      | 0 => .error (chainFault inode leaf)
      | links + 1 => do m.lastLeafFrom inode links (← m.rightLeaf leaf)

/-! ## Questions about a fork -/

/-- The extent that covers file block `logical`. -/
def findExtent (m : Medium) (inode : Inode) (logical : Nat) : Except Fault Extent := do
  match inode.format with
  | .extents =>
    match ← scanExtents 0 logical none (← inode.inlineExtents) with
    | .found e => return e
    | .passed | .ended _ => throw (.extentNotFound logical)
  | .btree =>
    let leaf ← m.entryLeaf inode (childIndex · logical)
    m.findFrom inode logical (m.maxLinks inode) none leaf
  | .dev | .inline | .uuid => throw inode.unmappedFault

/-- Block that holds file block `logical`. -/
def mapBlock (m : Medium) (inode : Inode) (logical : Nat) : Except Fault Mapping := do
  m.mappingIn (← m.findExtent inode logical) logical

/-- The extent with the highest file blocks. A last child with a further leaf to its right means
that the index is stale, so the leaves are followed to their end. -/
def lastExtent? (m : Medium) (inode : Inode) : Except Fault (Option Extent) := do
  match inode.format with
  | .extents => return (← inode.inlineExtents).getLast?
  | .btree =>
    let leaf ← m.entryLeaf inode fun keys => keys.length - 1
    return (← m.lastLeafFrom inode (m.maxLinks inode) leaf).extents.getLast?
  | .dev | .inline | .uuid => throw inode.unmappedFault

end Medium

end XfsVolume
