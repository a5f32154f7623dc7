import XfsVolume.Inode.Basic
import XfsVolume.Medium

/-!
# Finding and reading inodes

An inode number is turned into a place, the place is checked against the volume and the device, and
the decoded core is accepted only if its data fork suits its kind and can hold what it claims.
-/

namespace XfsVolume

/-- Bytes of a packed extent. -/
def extentLength : Nat := 16

/-- Bytes of the header of the root of an extent tree. -/
def rootHeaderLength : Nat := 4

/-- Place of inode `ino`, inside the volume. -/
def Geometry.locate (geo : Geometry) (ino : Nat) : Except Fault InodeSlot := do
  let slot ← (geo.inodeSlot ino).mapError fun e => Fault.outOfRange ino (.decode e)
  if slot.block ≥ geo.dataBlocks.toNat then
    throw (.outOfRange ino (.beyondVolume slot.block geo.dataBlocks.toNat))
  return slot

namespace Inode

/-- Fork formats that suit a file kind. -/
def formatSuits (kind : FileKind) (format : ForkFormat) : Bool :=
  match kind with
  | .directory | .symlink => format == .inline || format.isMapped
  | .regular => format.isMapped
  | .charDevice | .blockDevice | .fifo | .socket => format == .dev
  | .unknown => false

/-- What is wrong with the data fork of an inode, if anything. -/
def forkFlaw? (inode : Inode) : Option InodeFlaw :=
  let forkLen := inode.fork.size
  if inode.kindBits == 0 then some .notInUse
  else if inode.kind == .unknown then some (.unknownType inode.kindBits.toNat)
  else if !formatSuits inode.kind inode.format then
    some (.forkOnMode inode.format inode.mode.toNat)
  else
    match inode.format with
    | .extents =>
      if inode.extents.toNat * extentLength > forkLen then
        some (.extentsOverflow inode.extents.toNat forkLen)
      else none
    | .btree => if forkLen < rootHeaderLength + 16 then some (.rootOverflow forkLen) else none
    | .inline =>
      if inode.size.toNat > forkLen then some (.inlineOverflow inode.size.toNat forkLen) else none
    | .dev | .uuid => none

/-- Refuses an inode whose data fork does not suit its kind or cannot hold what it claims. -/
def checkFork (inode : Inode) : Except Fault Unit :=
  match inode.forkFlaw? with
  | some flaw => .error (.corruptInode inode.ino.toNat flaw)
  | none => .ok ()

end Inode

namespace Medium

/-- The bytes of inode slot `slot`. -/
def readSlot (m : Medium) (ino : Nat) (slot : InodeSlot) : Except Fault ByteArray := do
  if slot.block ≥ m.device.blockCount then
    throw (.outOfRange ino (.beyondDevice slot.block m.device.blockCount))
  let block ← m.readBlock slot.block
  let len := m.geometry.inodeSize.toNat
  if slot.offset + len > block.size then throw (.outOfRange ino .crossesBlock)
  return window block slot.offset len

/-- Inode `ino`. -/
def readInode (m : Medium) (ino : Nat) : Except Fault Inode := do
  let slot ← m.geometry.locate ino
  let bytes ← m.readSlot ino slot
  let inode ← (Inode.decode bytes (UInt64.ofNat ino)).mapError fun e =>
    Fault.corruptInode ino (.decode e)
  inode.checkFork
  return inode

end Medium

end XfsVolume
