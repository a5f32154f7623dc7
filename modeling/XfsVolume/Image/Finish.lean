import XfsVolume.Image.Builder

/-!
# Finishing a synthetic volume

The superblock says what the volume was laid out from, and is written over the first sector when
the volume is finished.
-/

namespace XfsVolume

/-- Identifier of every synthetic volume. -/
def imageUuid : ByteArray := "xfsr-synthetic!!".toUTF8

/-- Label of every synthetic volume. -/
def imageLabel : ByteArray := "xfsr".toUTF8

namespace ImageOptions

/-- Version word of the superblock. -/
def versionWord (o : ImageOptions) : UInt16 :=
  if o.isV5 then 5 else 4 ||| dirV2Bit ||| (if o.ftype then moreBitsBit else 0)

/-- Feature words of the superblock: each version says in a word of its own that entries carry a
file type. -/
def featureFields (o : ImageOptions) : List Field :=
  if !o.ftype then []
  else if o.isV5 then [⟨216, 4, ftypeBitV5.toNat⟩]
  else [⟨200, 4, ftypeBitV4.toNat⟩, ⟨204, 4, ftypeBitV4.toNat⟩]

/-- Numbers of the superblock of a volume with root inode `root`. -/
def superblockFields (o : ImageOptions) (root : Nat) : List Field := [
  ⟨0, 4, superblockMagic.toNat⟩,
  ⟨4, 4, imageBlockSize⟩,
  ⟨8, 8, o.totalBlocks⟩,
  ⟨56, 8, root⟩,
  ⟨84, 4, o.agBlocks⟩,
  ⟨88, 4, o.agCount⟩,
  ⟨100, 2, o.versionWord.toNat⟩,
  ⟨102, 2, sectorSize⟩,
  ⟨104, 2, o.inodeSize⟩,
  ⟨106, 2, o.inodesPerBlock⟩,
  ⟨120, 1, imageBlockLog⟩,
  ⟨121, 1, Nat.log2 sectorSize⟩,
  ⟨122, 1, o.inodeLog⟩,
  ⟨123, 1, o.inodesPerBlockLog⟩,
  ⟨124, 1, o.agBlockLog⟩,
  ⟨192, 1, o.dirBlockLog⟩] ++ o.featureFields

/-- Superblock of a volume with root inode `root`. -/
def superblock (o : ImageOptions) (root : Nat) : ByteArray :=
  overwrite (overwrite (blockOf sectorSize (o.superblockFields root)) 32 imageUuid) 108 imageLabel

end ImageOptions

namespace BuildM

/-- Writes the superblock; the answer is the bytes of the volume. -/
def finish : BuildM ByteArray := do
  let some root := (← get).root | throw .noRoot
  writeAt 0 ((← options).superblock root)
  return (← get).image

end BuildM

/-- Bytes of the volume that `steps` build, and what they answer. -/
def buildImage {α : Type} (o : ImageOptions) (steps : BuildM α) :
    Except BuildFault (ByteArray × α) := do
  let b ← Builder.ofOptions o
  let build : BuildM (ByteArray × α) := do
    let a ← steps
    return (← BuildM.finish, a)
  (build.run.run b).1

end XfsVolume
