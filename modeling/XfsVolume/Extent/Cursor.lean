import XfsVolume.Extent.Map

/-!
# Walking the extents of a fork

A cursor hands out the extents of a fork one by one in file order, checking that each is non-empty
and starts at or after the end of the one before it. The inode and the device may differ from call
to call; the cursor holds all that it needs of the leaf it is in. A cursor that has reached the end
or met a fault stays exhausted.
-/

namespace XfsVolume

/-- Where a cursor stands. -/
inductive CursorPlace
  | start
  /-- Before the extent with this index of an inode's own list. -/
  | inline (index : Nat)
  /-- Before the extent with this index of a leaf. -/
  | leaf (leaf : TreeLeaf) (index : Nat)
  | done
  deriving DecidableEq

/-- Position of a walk over the extents of a fork. -/
structure ExtentCursor where
  place : CursorPlace := .start
  /-- End of the extent handed out last. -/
  prevEnd : Option Nat := none
  /-- Leaves entered. -/
  leaves : Nat := 0
  deriving DecidableEq

namespace ExtentCursor

/-- True when nothing more comes. -/
def isDone (c : ExtentCursor) : Bool := c.place == .done

/-- The cursor with nothing more to hand out. -/
def finish (c : ExtentCursor) : ExtentCursor := { c with place := .done }

/-- Hands out `e`, which lies in `block`, and moves to `place`. -/
def emit (c : ExtentCursor) (block : Nat) (e : Extent) (place : CursorPlace) :
    Except Fault (Option Extent × ExtentCursor) := do
  e.checkAfter block c.prevEnd
  return (some e, { c with place, prevEnd := some e.stop })

/-- Next extent of an inode's own list. -/
def nextInline (c : ExtentCursor) (inode : Inode) (index : Nat) :
    Except Fault (Option Extent × ExtentCursor) := do
  if index ≥ inode.extents.toNat then return (none, c.finish)
  inode.checkInlineExtents
  let e ← (Extent.decode inode.fork (index * extentLength)).mapError fun err =>
    Inode.treeFault (.inlineRecord inode.ino.toNat index err)
  c.emit 0 e (.inline (index + 1))

/-- Next extent of a leaf, or of the leaf after it. -/
def nextInLeaf (c : ExtentCursor) (m : Medium) (inode : Inode) (leaf : TreeLeaf) (index : Nat) :
    Except Fault (Option Extent × ExtentCursor) := do
  match leaf.extents[index]? with
  | some e => c.emit leaf.block e (.leaf leaf (index + 1))
  | none =>
    let c := { c with leaves := c.leaves + 1 }
    if leaf.right = nullAddress then return (none, c.finish)
    if c.leaves > m.maxLinks inode then throw (Medium.chainFault inode leaf)
    let next ← m.rightLeaf leaf
    match next.extents[0]? with
    | some e => c.emit next.block e (.leaf next 1)
    | none => return (none, c.finish)

/-- Next extent and the cursor after it, or the fault met. -/
def advance (c : ExtentCursor) (m : Medium) (inode : Inode) :
    Except Fault (Option Extent × ExtentCursor) := do
  match c.place with
  | .done => return (none, c)
  | .start =>
    match inode.format with
    | .extents => c.nextInline inode 0
    | .btree =>
      let leaf ← m.entryLeaf inode fun _ => 0
      { c with leaves := 1 }.nextInLeaf m inode leaf 0
    | .dev | .inline | .uuid => throw inode.unmappedFault
  | .inline index => c.nextInline inode index
  | .leaf leaf index => c.nextInLeaf m inode leaf index

/-- Next extent of the fork, none at its end, and the cursor afterwards; a fault exhausts it. -/
def next (c : ExtentCursor) (m : Medium) (inode : Inode) :
    Except Fault (Option Extent) × ExtentCursor :=
  match c.advance m inode with
  | .ok (e, c') => (.ok e, c')
  | .error fault => (.error fault, c.finish)

end ExtentCursor

namespace Medium

/-- Extents from `leaf` on, following at most `links` links. -/
def extentsFrom (m : Medium) (inode : Inode) :
    (links : Nat) → Option Nat → TreeLeaf → Except Fault (List Extent)
  | links, prevEnd, leaf => do
    let prevEnd ← checkExtents leaf.block prevEnd leaf.extents
    if leaf.right = nullAddress then return leaf.extents
    match links with
    | 0 => throw (chainFault inode leaf)
    | links + 1 => return leaf.extents ++ (← m.extentsFrom inode links prevEnd (← m.rightLeaf leaf))

/-- All extents of a fork in file order: what a fresh cursor hands out until its end. The leaf that
is entered first counts among those that bound the walk. -/
def allExtents (m : Medium) (inode : Inode) : Except Fault (List Extent) := do
  match inode.format with
  | .extents =>
    let extents ← inode.inlineExtents
    let _ ← checkExtents 0 none extents
    return extents
  | .btree =>
    let leaf ← m.entryLeaf inode fun _ => 0
    m.extentsFrom inode (m.maxLinks inode - 1) none leaf
  | .dev | .inline | .uuid => throw inode.unmappedFault

end Medium

end XfsVolume
