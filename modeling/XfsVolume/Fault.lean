import XfsVolume.Device.Fault
import XfsVolume.Extent.Flaw
import XfsVolume.Directory.Flaw
import XfsVolume.Text.Quoted

/-!
# Faults of a volume

Every reason for which an operation on a volume fails, its text, the operating-system code under
which it is reported, and whether it means that the volume's own structures are damaged. A missing
name, a hole and the end of a listing are results, not faults.
-/

namespace XfsVolume

/-- Why the first block holds no usable superblock. -/
inductive SuperblockFlaw
  | decode (e : DecodeError)
  | emptyDevice
  /-- Any other reason, in words. -/
  | other (text : String)
  deriving DecidableEq

/-- How the superblock's numbers disagree with each other or with the device. -/
inductive GeometryFlaw
  | decode (e : DecodeError)
  | deviceBlockSize (device superblock : Nat)
  | pastDevice (dataBlocks deviceBlocks : Nat)
  /-- Any other reason, in words. -/
  | other (text : String)
  deriving DecidableEq

/-- Why a path cannot be walked. -/
inductive PathFlaw
  | notAbsolute (path : String)
  /-- Any other reason, in words. -/
  | other (text : String)
  deriving DecidableEq

/-- Reason for which an operation on a volume fails. -/
inductive Fault
  | io (fault : DeviceFault)
  | invalidSuperblock (flaw : SuperblockFlaw)
  | invalidGeometry (flaw : GeometryFlaw)
  | unsupportedBlockSize (size : Nat)
  | corruptInode (ino : Nat) (flaw : InodeFlaw)
  | corruptTree (block : Nat) (flaw : TreeFlaw)
  | corruptDirectory (block : Nat) (flaw : DirectoryFlaw)
  /-- The inode number names no place on the volume. -/
  | outOfRange (ino : Nat) (flaw : InodeRangeFlaw)
  | extentNotFound (logical : Nat)
  | notFound (name : String)
  | notDirectory
  | isDirectory
  | notSymlink
  | nameTooLong
  | invalidPath (flaw : PathFlaw)
  deriving DecidableEq

/-- Text of a superblock flaw. -/
def SuperblockFlaw.message : SuperblockFlaw → String
  | .decode e => e.message
  | .emptyDevice => "device is empty"
  | .other text => text

/-- Text of a geometry flaw. -/
def GeometryFlaw.message : GeometryFlaw → String
  | .decode e => e.message
  | .deviceBlockSize device superblock =>
    s!"device block size {device} does not match sb_blocksize {superblock}"
  | .pastDevice dataBlocks deviceBlocks =>
    s!"sb_dblocks {dataBlocks} exceeds the device's {deviceBlocks} blocks"
  | .other text => text

/-- Text of a path flaw. -/
def PathFlaw.message : PathFlaw → String
  | .notAbsolute path => s!"{quoted path} is not absolute"
  | .other text => text

namespace Fault

/-- Text of a fault. -/
def message : Fault → String
  | io fault => s!"I/O error: {fault.message}"
  | invalidSuperblock flaw => s!"invalid superblock: {flaw.message}"
  | invalidGeometry flaw => s!"invalid geometry: {flaw.message}"
  | unsupportedBlockSize size => s!"unsupported block size: {size}"
  | corruptInode ino flaw => s!"corrupt inode {ino}: {flaw.message}"
  | corruptTree block flaw => s!"corrupt extent tree at block {block}: {flaw.message}"
  | corruptDirectory block flaw => s!"corrupt directory block {block}: {flaw.message}"
  | outOfRange ino flaw => s!"inode {ino} out of range: {flaw.message}"
  | extentNotFound logical => s!"no extent maps logical block {logical}"
  | notFound name => s!"not found: {name}"
  | notDirectory => "not a directory"
  | isDirectory => "is a directory"
  | notSymlink => "not a symlink"
  | nameTooLong => "name too long"
  | invalidPath flaw => s!"invalid path: {flaw.message}"

/-- Name of a fault's class. -/
def name : Fault → String
  | io _ => "Io"
  | invalidSuperblock _ => "InvalidSuperblock"
  | invalidGeometry _ => "InvalidGeometry"
  | unsupportedBlockSize _ => "UnsupportedBlockSize"
  | corruptInode .. => "CorruptInode"
  | corruptTree .. => "CorruptTree"
  | corruptDirectory .. => "CorruptDirectory"
  | outOfRange .. => "OffsetOutOfRange"
  | extentNotFound _ => "ExtentNotFound"
  | notFound _ => "NotFound"
  | notDirectory => "NotDirectory"
  | isDirectory => "IsDirectory"
  | notSymlink => "NotSymlink"
  | nameTooLong => "NameTooLong"
  | invalidPath _ => "InvalidPath"

/-- Texts of a fault and of the faults below it, outermost first. A device fault is its own
cause, so its text appears twice. -/
def chain : Fault → List String
  | io fault => [(io fault).message, fault.message]
  | fault => [fault.message]

/-- Operating-system code of a fault. -/
def errno : Fault → Nat
  | io fault => fault.errno
  | invalidSuperblock _ | invalidGeometry _ | outOfRange .. | notSymlink | invalidPath _ =>
    OsError.invalid
  | unsupportedBlockSize _ => OsError.notSupported
  | corruptInode .. | corruptTree .. | corruptDirectory .. => OsError.needsCleaning
  | extentNotFound _ => OsError.noDevice
  | notFound _ => OsError.noEntry
  | notDirectory => OsError.notDirectory
  | isDirectory => OsError.isDirectory
  | nameTooLong => OsError.nameTooLong

/-- True when the volume's own structures are damaged. -/
def isCorruption : Fault → Bool
  | invalidSuperblock _ | invalidGeometry _ | corruptInode .. | corruptTree ..
  | corruptDirectory .. | outOfRange .. => true
  | _ => false

end Fault

end XfsVolume
