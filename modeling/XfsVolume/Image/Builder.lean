import XfsVolume.Image.Fault
import XfsVolume.Image.Options

/-!
# Building a volume

A synthetic volume is built step by step: blocks are handed out from the front of each allocation
group, inode slots from blocks taken for them, and structures are written where they were given
room. The same steps always give the same bytes. A step that fails keeps what it did before it
failed.
-/

namespace XfsVolume

/-- A volume being built. -/
structure Builder where
  options : ImageOptions
  image : ByteArray
  /-- Next free block of each allocation group. -/
  nextBlocks : Array Nat
  /-- Block of each allocation group from which inodes are handed out, and the next slot in it. -/
  inodeBlocks : Array (Option (Nat × Nat))
  /-- Modes of the inodes written, newest first. -/
  modes : List (Nat × UInt16)
  root : Option Nat

/-- A step of building a volume. -/
abbrev BuildM := ExceptT BuildFault (StateM Builder)

/-- What an inode is to hold. -/
structure InodeDraft where
  mode : UInt16
  format : ForkFormat
  size : Nat
  blocks : Nat
  extents : Nat
  nlink : Nat
  fork : ByteArray

/-- Numbers of the core of an inode. -/
def InodeDraft.coreFields (d : InodeDraft) (o : ImageOptions) (ino : Nat) : List Field := [
  ⟨0, 2, inodeMagic.toNat⟩,
  ⟨2, 2, d.mode.toNat⟩,
  ⟨4, 1, if o.isV5 then 3 else 2⟩,
  ⟨5, 1, d.format.code.toNat⟩,
  ⟨8, 4, imageUid⟩,
  ⟨12, 4, imageGid⟩,
  ⟨16, 4, d.nlink⟩,
  ⟨32, 4, imageTime⟩,
  ⟨40, 4, imageTime⟩,
  ⟨48, 4, imageTime⟩,
  ⟨56, 8, d.size⟩,
  ⟨64, 8, d.blocks⟩,
  ⟨76, 4, d.extents⟩,
  ⟨83, 1, ForkFormat.extents.code.toNat⟩,
  ⟨92, 4, 1⟩] ++ if o.isV5 then [⟨144, 4, imageTime⟩, ⟨152, 8, ino⟩] else []

/-- The core of an inode and its fork, as they are stored. -/
def InodeDraft.encode (d : InodeDraft) (o : ImageOptions) (ino : Nat) : ByteArray :=
  overwrite (blockOf o.inodeSize (d.coreFields o ino)) o.coreLength d.fork

namespace Builder

/-- An empty volume. The first block of each allocation group is taken by its headers. A volume of
2^63 bytes or more is refused: no array is that long. -/
def ofOptions (o : ImageOptions) : Except BuildFault Builder := do
  if !isPowerOfTwo o.inodeSize || o.inodeSize < 256 || o.inodeSize > 2048 then
    throw (.inodeSize o.inodeSize)
  if o.agBlocks < 16 || o.agCount < 1 then throw .groupsTooSmall
  if o.dirBlockLog > 4 then throw (.dirBlockLog o.dirBlockLog)
  if o.totalBlocks * imageBlockSize ≥ 1 <<< 63 then throw .imageTooLarge
  return {
    options := o
    image := zeros (o.totalBlocks * imageBlockSize)
    nextBlocks := Array.replicate o.agCount 1
    inodeBlocks := Array.replicate o.agCount none
    modes := []
    root := none }

/-- True when `count` more blocks fit allocation group `ag`. -/
def hasRoom (b : Builder) (ag count : Nat) : Bool :=
  match b.nextBlocks[ag]? with
  | some next => next + count ≤ b.options.agBlocks
  | none => false

/-- Address of block `agBlock` of allocation group `ag`: the group in the high bits and the block in
the low ones. An empty run at the end of a full group may have a block number that needs one bit
more, which falls on the lowest bit of the group. -/
def address (b : Builder) (ag agBlock : Nat) : Nat :=
  (ag <<< b.options.agBlockLog) ||| agBlock

end Builder

namespace BuildM

/-- The options of the volume. -/
def options : BuildM ImageOptions := return (← get).options

/-- Writes `data` from byte `off` of the image on. -/
def writeAt (off : Nat) (data : ByteArray) : BuildM Unit :=
  modify fun b => { b with image := overwrite b.image off data }

/-- Writes `data` from the block with the given address on. -/
def writeBlocks (address : Nat) (data : ByteArray) : BuildM Unit := do
  writeAt ((← options).blockOffset address) data

/-! ## Room -/

/-- Takes `count` blocks from the front of allocation group `ag`, which has room for them. -/
def takeBlocks (ag count : Nat) : BuildM Nat := do
  let next := (← get).nextBlocks.getD ag 0
  modify fun b => { b with nextBlocks := b.nextBlocks.setIfInBounds ag (next + count) }
  return next

/-- Address of `count` adjoining blocks of allocation group `ag`. -/
def allocateIn (ag count : Nat) : BuildM Nat := do
  if !(← get).hasRoom ag count then throw (.groupFull ag count)
  let agBlock ← takeBlocks ag count
  return (← get).address ag agBlock

/-- Address of `count` adjoining blocks of the first allocation group with room for them. -/
def allocate (count : Nat) : BuildM Nat := do
  let b ← get
  match (List.range b.options.agCount).find? (b.hasRoom · count) with
  | some ag => allocateIn ag count
  | none => throw (.imageFull count)

/-- Number of an unused inode of allocation group `ag`. -/
def reserveIn (ag : Nat) : BuildM Nat := do
  let b ← get
  let perBlock := b.options.inodesPerBlock
  let (agBlock, slot) ←
    match (b.inodeBlocks[ag]?).join.filter (·.2 < perBlock) with
    | some place => pure place
    | none => do
      if !b.hasRoom ag 1 then throw (.noInodeRoom ag)
      pure (← takeBlocks ag 1, 0)
  modify fun b =>
    { b with inodeBlocks := b.inodeBlocks.setIfInBounds ag (some (agBlock, slot + 1)) }
  return (ag <<< b.options.inodeBits) + (agBlock * perBlock + slot)

/-- Number of an unused inode of the first allocation group. -/
def reserve : BuildM Nat := reserveIn 0

/-! ## Inodes -/

/-- Writes inode `ino`. -/
def writeInode (ino : Nat) (draft : InodeDraft) : BuildM Unit := do
  let o ← options
  if draft.fork.size > o.literalLength then
    throw (.forkTooLong draft.fork.size o.literalLength)
  let off := o.inodeOffset ino
  if off + o.inodeSize > (← get).image.size then throw (.inodeOutside ino)
  writeAt off (draft.encode o ino)
  modify fun b => { b with modes := (ino, draft.mode) :: b.modes }

/-- A new inode with the given contents. -/
def addInode (draft : InodeDraft) : BuildM Nat := do
  let ino ← reserve
  writeInode ino draft
  return ino

/-- Makes `ino` the root of the volume. -/
def setRoot (ino : Nat) : BuildM Unit := modify fun b => { b with root := some ino }

end BuildM

end XfsVolume
