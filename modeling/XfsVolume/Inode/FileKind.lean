/-!
# File kinds

What kind of object an inode is, as its mode says and as a directory entry may repeat.
-/

namespace XfsVolume

/-- Kind of a file. -/
inductive FileKind
  | unknown
  | regular
  | directory
  | charDevice
  | blockDevice
  | fifo
  | socket
  | symlink
  deriving DecidableEq

/-- Bits of a mode that hold the file's kind. -/
def kindMask : UInt16 := 0xF000

namespace FileKind

/-- Code of a kind in a directory entry. -/
def code : FileKind → UInt8
  | unknown => 0
  | regular => 1
  | directory => 2
  | charDevice => 3
  | blockDevice => 4
  | fifo => 5
  | socket => 6
  | symlink => 7

/-- Kind with the given code; other codes say nothing. -/
def ofCode : UInt8 → FileKind
  | 1 => regular
  | 2 => directory
  | 3 => charDevice
  | 4 => blockDevice
  | 5 => fifo
  | 6 => socket
  | 7 => symlink
  | _ => unknown

/-- Mode bits of a kind. -/
def modeBits : FileKind → UInt16
  | unknown => 0
  | fifo => 0x1000
  | charDevice => 0x2000
  | directory => 0x4000
  | blockDevice => 0x6000
  | regular => 0x8000
  | symlink => 0xA000
  | socket => 0xC000

/-- Kind that the bits of a mode name. -/
def ofMode (mode : UInt16) : FileKind :=
  match mode &&& kindMask with
  | 0x1000 => fifo
  | 0x2000 => charDevice
  | 0x4000 => directory
  | 0x6000 => blockDevice
  | 0x8000 => regular
  | 0xA000 => symlink
  | 0xC000 => socket
  | _ => unknown

/-- Kind shown among an inode's attributes, where an unknown kind counts as a regular file. -/
def shown : FileKind → FileKind
  | unknown => regular
  | k => k

/-- Name of a kind. -/
def name : FileKind → String
  | unknown => "Unknown"
  | regular => "RegularFile"
  | directory => "Directory"
  | charDevice => "CharDevice"
  | blockDevice => "BlockDevice"
  | fifo => "Fifo"
  | socket => "Socket"
  | symlink => "Symlink"

end FileKind

end XfsVolume
