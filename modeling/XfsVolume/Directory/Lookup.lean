import XfsVolume.Directory.Inline
import XfsVolume.Directory.Reader
import XfsVolume.Partition

/-!
# Looking up a name

Inline and block directories are searched in stored order. The other formats are searched through
the hash index: the entries with the wanted hash stand next to each other, the run of them may go on
in the next leaf, and each that is not stale is compared by the name it points at.

In a node directory the leaf is found by one descent through the node blocks. A chain of leaves has
no more links than the directory has blocks, nor than the volume has; a longer one is in a loop.
-/

namespace XfsVolume

/-- The name by which a directory holds itself. -/
def dotName : Name := [0x2E]

/-- The name by which a directory holds its parent. -/
def dotDotName : Name := [0x2E, 0x2E]

/-- The entry stored in an inline directory. -/
def InlineEntry.toDirEntry (e : InlineEntry) : DirEntry where
  ino := e.ino
  name := e.name
  kind := kindOfCode e.ftype

/-- What a look-up tells of an entry. -/
def DirEntry.target (e : DirEntry) : Nat × FileKind := (e.ino, e.kind)

/-- The fault of damage to an inline directory. -/
def inlineDirFault (dir : Inode) (flaw : InlineDirFlaw) : Fault :=
  dirFault 0 (.inline dir.ino.toNat flaw)

namespace Medium

/-! ## Inline directories -/

/-- Header and entries of an inline directory. -/
def inlineEntries (m : Medium) (dir : Inode) :
    Except Fault (InlineHeader × List InlineEntry) := do
  let size := dir.size.toNat
  if size > dir.fork.size then throw (inlineDirFault dir (.tooLong size))
  let area := window dir.fork 0 size
  let header ← (InlineHeader.decode area).mapError fun e => inlineDirFault dir (.header e)
  let walk := walkInline area header.inoWidth m.geometry.hasFtype header.count.toNat header.length
  match walk.stoppedBy with
  | some (off, e) => throw (inlineDirFault dir (.entry off e))
  | none => return (header, walk.entries)

/-- All entries of an inline directory, its own and its parent's first. -/
def inlineListing (m : Medium) (dir : Inode) : Except Fault (List DirEntry) := do
  let (header, entries) ← m.inlineEntries dir
  return { ino := dir.ino.toNat, name := dotName, kind := .directory } ::
    { ino := header.parent, name := dotDotName, kind := .directory } ::
    entries.map InlineEntry.toDirEntry

/-- Looks up `name` in an inline directory. -/
def lookupInline (m : Medium) (dir : Inode) (name : Name) :
    Except Fault (Option (Nat × FileKind)) := do
  let listing ← m.inlineListing dir
  return (listing.find? (·.name == name)).map DirEntry.target

/-! ## Block directories -/

/-- Walk over the slots of a block directory. -/
def blockWalk (m : Medium) (dir : Inode) : CacheM SlotWalk := do
  let block ← m.readDirBlock dir 0
  let header ← decodedIn dir 0 (DataHeader.decode block)
  if header.kind ≠ .single then throw (dirFault 0 (.notSingleBlock dir.ino.toNat))
  let tail ← decodedIn dir 0 (BlockTail.decode block header.length)
  return walkSlots block header.length tail.indexOffset m.geometry.hasFtype

/-- What a walk that was searched in vain says: nothing, or the error that ended it. -/
def walkEnd {α : Type} (dir : Inode) (walk : SlotWalk) : Except Fault (Option α) :=
  match walk.stoppedBy with
  | some e => .error (dirFault 0 (.decode dir.ino.toNat e))
  | none => .ok none

/-- Looks up `name` in a block directory. -/
def lookupBlock (m : Medium) (dir : Inode) (name : Name) :
    CacheM (Option (Nat × FileKind)) := do
  let walk ← m.blockWalk dir
  match walk.entries.find? (·.name == name) with
  | some e => return some e.toDirEntry.target
  | none => walkEnd dir walk

/-! ## Runs of equal hashes -/

/-- Outcome of searching one leaf. -/
inductive HashRun
  | found (target : Nat × FileKind)
  /-- The run ended inside the leaf. -/
  | missing
  /-- The run reached the end of the leaf and may go on in the next. -/
  | reachedEnd
  deriving DecidableEq

/-- Searches a list that starts with the run of `hash`. -/
def searchRun (m : Medium) (dir : Inode) (hash : UInt32) (name : Name) :
    List HashEntry → CacheM HashRun
  | [] => return .reachedEnd
  | e :: rest => do
    if e.hash ≠ hash then return .missing
    if e.isStale then m.searchRun dir hash name rest
    else
      let entry ← m.entryAt dir e.address
      if entry.name = name then return .found entry.target
      m.searchRun dir hash name rest

/-- Searches a leaf. Its entries should be in the order of their hashes, which nothing checks: the
run of the hash is taken to start where halving leads. -/
def searchLeaf (m : Medium) (dir : Inode) (hash : UInt32) (name : Name)
    (entries : List HashEntry) : CacheM HashRun :=
  m.searchRun dir hash name (entries.drop (partitionPoint (·.hash < hash) entries))

/-- Looks up `name` in a leaf directory. -/
def lookupLeaf (m : Medium) (dir : Inode) (name : Name) :
    CacheM (Option (Nat × FileKind)) := do
  let (_, entries) ← m.readLeaf dir m.geometry.indexRegion .single
  match ← m.searchLeaf dir (nameHash name) name entries with
  | .found target => return some target
  | .missing | .reachedEnd => return none

/-! ## Node directories -/

/-- Refuses a file block outside the index region. -/
def checkIndexRegion (m : Medium) (dir : Inode) (fb : Nat) : Except Fault Unit :=
  if fb < m.geometry.indexRegion || fb ≥ m.geometry.freeRegion then
    .error (dirFault fb (.outsideLeafRegion dir.ino.toNat))
  else .ok ()

/-- What a block of the index region is. -/
inductive IndexBlock
  | leaf
  | node (n : HashNode)
  deriving DecidableEq

/-- Block `fb` of the index, which must be at level `expected` where one is given; leaves are at
level zero. -/
def readIndexBlock (m : Medium) (dir : Inode) (fb : Nat) (expected : Option Nat) :
    CacheM IndexBlock := do
  m.checkIndexRegion dir fb
  let block ← m.readDirBlock dir fb
  let magic ← decodedIn dir fb (indexMagic block)
  if magic == LeafKind.chained.magic || magic == LeafKind.chained.magicCrc then
    match expected with
    | none | some 0 => return .leaf
    | some level => throw (dirFault fb (.leafAtLevel level))
  let node ← decodedIn dir fb (HashNode.decode block)
  match expected with
  | some level =>
    if node.level ≠ level then throw (dirFault fb (.nodeLevel node.level level))
    return .node node
  | none => return .node node

/-- Leaf reached from file block `fb` at `level`, taking the child that `pick` chooses. -/
def descendIndex (m : Medium) (dir : Inode) (pick : List NodeEntry → Option NodeEntry) :
    (level fb : Nat) → CacheM Nat
  | level, fb => do
    match ← m.readIndexBlock dir fb (some level) with
    | .leaf => return fb
    | .node n =>
      match level with
      | level + 1 =>
        let some child := pick n.entries | throw (dirFault fb .emptyNode)
        m.descendIndex dir pick level child.child.toNat
      | 0 => throw (dirFault fb (.nodeLevel n.level 0))

/-- Leaf reached from the root of the index, which may be at any level. -/
def indexLeaf (m : Medium) (dir : Inode) (pick : List NodeEntry → Option NodeEntry) :
    CacheM Nat := do
  let root := m.geometry.indexRegion
  match ← m.readIndexBlock dir root none with
  | .leaf => return root
  | .node n =>
    let some child := pick n.entries | throw (dirFault root .emptyNode)
    m.descendIndex dir pick (n.level - 1) child.child.toNat

/-- Most links that a walk along the leaves of a directory may follow. -/
def maxLeafLinks (m : Medium) (dir : Inode) : Nat :=
  min dir.blocks.toNat m.geometry.dataBlocks.toNat

/-- Searches from the leaf at file block `fb` on, following at most `links` links. -/
def searchChain (m : Medium) (dir : Inode) (hash : UInt32) (name : Name) :
    (links fb : Nat) → CacheM (Option (Nat × FileKind))
  | links, fb => do
    let (header, entries) ← m.readLeaf dir fb .chained
    match ← m.searchLeaf dir hash name entries with
    | .found target => return some target
    | .missing => return none
    | .reachedEnd =>
      if header.next == 0 then return none
      else
        match links with
        | 0 => throw (dirFault fb .chainEndless)
        | links + 1 => m.searchChain dir hash name links header.next.toNat

/-- Looks up `name` in a node directory. -/
def lookupNode (m : Medium) (dir : Inode) (name : Name) :
    CacheM (Option (Nat × FileKind)) := do
  let hash := nameHash name
  let fb ← m.indexLeaf dir fun entries => HashNode.childFor entries hash
  m.searchChain dir hash name (m.maxLeafLinks dir) fb

/-! ## Any directory -/

/-- Looks up `name` in directory `dir`. No entry has the empty name. -/
def lookupName (m : Medium) (dir : Inode) (name : Name) :
    CacheM (Option (Nat × FileKind)) := do
  if name.length > maxNameLength then throw .nameTooLong
  if name.isEmpty then return none
  match ← m.dirFormat dir with
  | .inline => m.lookupInline dir name
  | .block => m.lookupBlock dir name
  | .leaf => m.lookupLeaf dir name
  | .node => m.lookupNode dir name

end Medium

end XfsVolume
