import XfsVolume.Extent.Tree
import XfsVolume.Image.Builder

/-!
# Writing the map of a fork

The extents of a fork are written as a list into the inode or, when they do not fit it or a tree is
asked for, as a tree: leaves of a chosen capacity, levels of a chosen fanout above them until the
rest fits the root, each level linked in both directions.
-/

namespace XfsVolume

/-- Shape of a written extent tree. -/
structure TreeShape where
  /-- Extents of a leaf. -/
  leafCapacity : Nat
  /-- Children of an interior node. -/
  fanout : Nat
  deriving DecidableEq

/-- The shape that fills every block. -/
def TreeShape.full : TreeShape := ⟨wordLimit - 1, wordLimit - 1⟩

/-- A fork ready to be stored. -/
structure ForkDraft where
  format : ForkFormat
  bytes : ByteArray
  /-- Blocks used by the tree. -/
  treeBlocks : Nat

namespace ImageOptions

/-- Header length of a tree node. -/
def nodeHeader (o : ImageOptions) : Nat :=
  if o.isV5 then nodeHeaderLengthCrc else nodeHeaderLength

/-- Records that a tree node has room for. -/
def nodeRoom (o : ImageOptions) : Nat := (imageBlockSize - o.nodeHeader) / 16

/-- Links that the root of a tree has room for. -/
def rootRoom (o : ImageOptions) : Nat := (o.literalLength - 4) / 16

/-- Header of the node of `count` records at `address`, for the tree of inode `owner`. -/
def nodeFields (o : ImageOptions) (owner address level count left right : Nat) : List Field :=
  let magic := if o.isV5 then treeMagicCrc else treeMagic
  [⟨0, 4, magic.toNat⟩, ⟨4, 2, level⟩, ⟨6, 2, count⟩, ⟨8, 8, left⟩, ⟨16, 8, right⟩] ++
    if o.isV5 then [⟨24, 8, o.blockOffset address / sectorSize⟩, ⟨56, 8, owner⟩] else []

/-- Records of a leaf. -/
def leafFields (o : ImageOptions) (extents : List Extent) : List Field :=
  fieldRun o.nodeHeader 8 (extents.flatMap fun e => [e.toWords.1.toNat, e.toWords.2.toNat])

/-- Keys and addresses of an interior node. -/
def interiorFields (o : ImageOptions) (links : List TreeLink) : List Field :=
  fieldRun o.nodeHeader 8 (links.map TreeLink.key) ++
    fieldRun (o.nodeHeader + o.nodeRoom * 8) 8 (links.map TreeLink.address)

/-- Root of a tree, as the fork that holds it. -/
def rootFork (o : ImageOptions) (level : Nat) (links : List TreeLink) : ByteArray :=
  blockOf o.literalLength ([⟨0, 2, level⟩, ⟨2, 2, links.length⟩] ++
    fieldRun 4 8 (links.map TreeLink.key) ++
    fieldRun (4 + o.rootRoom * 8) 8 (links.map TreeLink.address))

end ImageOptions

namespace BuildM

/-- Writes a level of a tree, one node for each member of `chunks`; the answer links to its nodes.
`key` is the first file block of a record. -/
def writeLevel {α : Type} (owner level : Nat) (chunks : List (List α)) (key : α → Nat)
    (records : List α → List Field) : BuildM (List TreeLink) := do
  let o ← options
  let addresses ← chunks.mapM fun _ => allocate 1
  let places := neighbours nullAddress nullAddress addresses
  for ((left, address, right), chunk) in places.zip chunks do
    writeBlocks address (blockOf imageBlockSize
      (o.nodeFields owner address level chunk.length left right ++ records chunk))
  return (addresses.zip chunks).map fun (address, chunk) =>
    { key := (chunk.head?.map key).getD 0, address }

/-- Writes levels above `links` until at most `limit` nodes are left, in at most `fuel` steps. Each
level has fewer nodes than the one below it, so as many steps as there are links are enough. The
answer is the height reached, the links to the topmost nodes, and the blocks used. -/
def writeLevels (owner fanout limit : Nat) :
    (fuel height : Nat) → List TreeLink → Nat → BuildM (Nat × List TreeLink × Nat)
  | 0, height, links, used => return (height, links, used)
  | fuel + 1, height, links, used => do
    if links.length ≤ limit then return (height, links, used)
    let o ← options
    let chunks := chunksOf fanout links
    let parents ← writeLevel owner (height + 1) chunks TreeLink.key o.interiorFields
    writeLevels owner fanout limit fuel (height + 1) parents (used + chunks.length)

/-- Writes the tree that holds `extents` for inode `owner`. -/
def writeTree (owner : Nat) (extents : List Extent) (shape : TreeShape) : BuildM ForkDraft := do
  if extents.isEmpty then throw .treeWithoutExtents
  if shape.leafCapacity < 1 || shape.fanout < 2 then
    throw (.treeShape shape.leafCapacity shape.fanout)
  let o ← options
  let fanout := min shape.fanout o.nodeRoom
  let chunks := chunksOf (min shape.leafCapacity o.nodeRoom) extents
  let leaves ← writeLevel owner 0 chunks Extent.start o.leafFields
  let (height, links, used) ←
    writeLevels owner fanout (min fanout o.rootRoom) leaves.length 0 leaves chunks.length
  return { format := .btree, bytes := o.rootFork (height + 1) links, treeBlocks := used }

/-- Writes the map that holds `extents` for inode `owner`, as a tree of the given shape or, where
none is given, as a list if it fits. -/
def writeFork (owner : Nat) (extents : List Extent) (shape : Option TreeShape) :
    BuildM ForkDraft := do
  let o ← options
  if shape.isNone && extents.length * 16 ≤ o.literalLength then
    return { format := .extents, bytes := (extents.flatMap Extent.encode).toByteArray,
             treeBlocks := 0 }
  else writeTree owner extents (shape.getD TreeShape.full)

end BuildM

end XfsVolume
