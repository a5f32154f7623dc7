import XfsVolume.Volume.Names

/-!
# Attributes

What a file system interface reports of an inode: its size and use of space, its times, its kind
and permissions, its owners, and the device number of a device file. A file without a creation time
is as old as its last change.
-/

namespace XfsVolume

/-- Unit in which the space that a file uses is reported. -/
def spaceUnit : Nat := 512

/-- Attributes of an inode. -/
structure Attributes where
  ino : Nat
  size : Nat
  /-- Space used, in units of 512 bytes. -/
  units : Nat
  atime : Timestamp
  mtime : Timestamp
  ctime : Timestamp
  crtime : Timestamp
  kind : FileKind
  permissions : UInt16
  nlink : UInt32
  uid : UInt32
  gid : UInt32
  /-- Device number; zero unless the inode is a device. -/
  device : UInt32
  blockSize : Nat
  deriving DecidableEq

/-- A timestamp whose nanoseconds are less than a second. -/
def Timestamp.clamped (t : Timestamp) : Timestamp :=
  { t with nsec := min t.nsec 999999999 }

/-- Attributes of an inode of a volume with this geometry. -/
def Inode.attributes (inode : Inode) (geo : Geometry) : Attributes where
  ino := inode.ino.toNat
  size := inode.size.toNat
  units := min (inode.blocks.toNat * (geo.blockSize.toNat / spaceUnit)) (wordLimit - 1)
  atime := inode.atime.clamped
  mtime := inode.mtime.clamped
  ctime := inode.ctime.clamped
  crtime := (inode.crtime.getD inode.ctime).clamped
  kind := inode.kind.shown
  permissions := inode.permissions
  nlink := inode.nlink
  uid := inode.uid
  gid := inode.gid
  device :=
    if inode.format = .dev then (readU32 inode.fork 0).toOption.getD 0 else 0
  blockSize := geo.blockSize.toNat

namespace Volume

/-- Attributes of inode `ino`. -/
def attributes (v : Volume) (ino : Nat) : Except Fault Attributes := do
  return (← v.readInode ino).attributes v.geometry

/-- Attributes of the inode that `name` names in directory `parent`; a missing name is a fault. -/
def childAttributes (v : Volume) (parent : Nat) (name : Name) : CacheM Attributes := do
  match ← v.lookup parent name with
  | none => throw (.notFound (lossyText name))
  | some (ino, _) => v.attributes ino

end Volume

end XfsVolume
