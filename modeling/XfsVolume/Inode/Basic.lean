import XfsVolume.Bytes
import XfsVolume.Inode.FileKind
import XfsVolume.Inode.Flaw

/-!
# Inodes

An inode is a core of fixed layout followed by the literal area, whose first part is the data fork.
Versions 1 and 2 have a core of 100 bytes; version 3 has one of 176 bytes that also records the
inode's own number. Decoding copies the fork, so an inode does not depend on the block it was read
from.
-/

namespace XfsVolume

/-- The mark `IN`. -/
def inodeMagic : UInt16 := 0x494E

/-- Bytes of the core of inodes of versions 1 and 2. -/
def coreLengthV2 : Nat := 100

/-- Bytes of the core of version 3 inodes. -/
def coreLengthV3 : Nat := 176

/-- Second flag word: timestamps are 64-bit nanosecond counts. -/
def wideTimeBit : UInt64 := 8

/-- Second flag word: extent counts are wide. -/
def wideCountBit : UInt64 := 16

/-- A time as seconds from the epoch and nanoseconds. -/
structure Timestamp where
  sec : Int
  nsec : UInt32
  deriving DecidableEq

/-- Nanoseconds of a second. -/
def nanosPerSecond : Nat := 1000000000

/-- Seconds from the start of wide timestamps to the epoch. -/
def wideTimeEpoch : Nat := UInt32.size / 2

/-- The number that 32 bits hold as a signed word. -/
def signed32 (w : UInt32) : Int := Int.bmod w.toNat UInt32.size

/-- Timestamp at `off`. A wide one counts nanoseconds from 2^31 seconds before the epoch; the other
form has 32-bit signed seconds and the nanoseconds after them. -/
def Timestamp.decode (b : ByteArray) (off : Nat) (wide : Bool) :
    Except DecodeError Timestamp := do
  if wide then
    let ns := (← readU64 b off).toNat
    return {
      sec := (ns / nanosPerSecond : Nat) - (wideTimeEpoch : Nat)
      nsec := UInt32.ofNat (ns % nanosPerSecond) }
  else
    let sec ← readU32 b off
    let nsec ← readU32 b (off + 4)
    return { sec := signed32 sec, nsec }

/-- Core of an inode and its data fork. -/
structure Inode where
  ino : UInt64
  mode : UInt16
  version : UInt8
  format : ForkFormat
  uid : UInt32
  gid : UInt32
  nlink : UInt32
  atime : Timestamp
  mtime : Timestamp
  ctime : Timestamp
  /-- Creation time; version 3 only. -/
  crtime : Option Timestamp
  size : UInt64
  /-- Blocks used, those of the extent tree included. -/
  blocks : UInt64
  extentSize : UInt32
  /-- Extents of the data fork. -/
  extents : UInt64
  attrExtents : UInt32
  forkOffset : UInt8
  attrFormat : UInt8
  flags : UInt16
  flags2 : UInt64
  generation : UInt32
  fork : ByteArray

namespace Inode

/-- Length of the core of an inode of the given version. -/
def coreLength? (version : UInt8) : Option Nat :=
  if version == 1 || version == 2 then some coreLengthV2
  else if version == 3 then some coreLengthV3
  else none

/-- Version, core length and fork format, at the start of an inode. -/
def decodeForm (b : ByteArray) : Except DecodeError (UInt8 × Nat × ForkFormat) := do
  let magic ← readU16 b 0
  if magic ≠ inodeMagic then throw (.invalidMagic inodeMagic.toNat magic.toNat)
  let version ← readU8 b 4
  let some core := coreLength? version
    | throw (.invalidField "di_version" "unknown inode version")
  if b.size < core then throw (.insufficientData core 0 b.size)
  let some format := ForkFormat.ofCode? (← readU8 b 5)
    | throw (.invalidField "di_format" "unknown fork format")
  return (version, core, format)

/-- Second flag word, which only version 3 has; it also records the inode's number. -/
def decodeFlags2 (b : ByteArray) (isV3 : Bool) (ino : UInt64) : Except DecodeError UInt64 := do
  if isV3 then
    let flags2 ← readU64 b 120
    if (← readU64 b 152) ≠ ino then
      throw (.invalidField "di_ino" "does not match the inode number")
    return flags2
  else return 0

/-- Extents of the data fork and of the attribute fork. -/
def decodeCounts (b : ByteArray) (wide : Bool) : Except DecodeError (UInt64 × UInt32) := do
  if wide then return (← readU64 b 24, ← readU32 b 76)
  else return ((← readU32 b 76).toUInt64, (← readU16 b 80).toUInt32)

/-- Number of links; version 1 has a narrow one. -/
def decodeLinkCount (b : ByteArray) (version : UInt8) : Except DecodeError UInt32 :=
  if version == 1 then UInt16.toUInt32 <$> readU16 b 6 else readU32 b 16

/-- Creation time, which only version 3 has. -/
def decodeCreation (b : ByteArray) (isV3 wide : Bool) : Except DecodeError (Option Timestamp) :=
  if isV3 then some <$> Timestamp.decode b 144 wide else pure none

/-- Where the attribute fork starts, in units of eight bytes, and the length of the data fork, which
ends there or with the literal area. -/
def decodeForkLength (b : ByteArray) (literal : Nat) : Except DecodeError (UInt8 × Nat) := do
  let forkOffset ← readU8 b 82
  let forkLength := if forkOffset == 0 then literal else forkOffset.toNat * 8
  if forkLength > literal then
    throw (.invalidField "di_forkoff" "attribute fork starts past the literal area")
  return (forkOffset, forkLength)

/-- Inode held by exactly the bytes `b`, located from the number `ino`. -/
def decode (b : ByteArray) (ino : UInt64) : Except DecodeError Inode := do
  let (version, core, format) ← decodeForm b
  let isV3 := version == 3
  let flags2 ← decodeFlags2 b isV3 ino
  let wideTime := flags2 &&& wideTimeBit != 0
  let (extents, attrExtents) ← decodeCounts b (flags2 &&& wideCountBit != 0)
  let nlink ← decodeLinkCount b version
  let (forkOffset, forkLength) ← decodeForkLength b (b.size - core)
  return {
    ino
    mode := ← readU16 b 2
    version
    format
    uid := ← readU32 b 8
    gid := ← readU32 b 12
    nlink
    atime := ← Timestamp.decode b 32 wideTime
    mtime := ← Timestamp.decode b 40 wideTime
    ctime := ← Timestamp.decode b 48 wideTime
    crtime := ← decodeCreation b isV3 wideTime
    size := ← readU64 b 56
    blocks := ← readU64 b 64
    extentSize := ← readU32 b 72
    extents
    attrExtents
    forkOffset
    attrFormat := ← readU8 b 83
    flags := ← readU16 b 90
    flags2
    generation := ← readU32 b 92
    fork := ← readBytes b core forkLength }

/-- Kind of file that the mode names. -/
def kind (inode : Inode) : FileKind := FileKind.ofMode inode.mode

/-- Bits of the mode that hold the kind. -/
def kindBits (inode : Inode) : UInt16 := inode.mode &&& kindMask

def isDirectory (inode : Inode) : Bool := inode.kind == .directory

def isRegular (inode : Inode) : Bool := inode.kind == .regular

def isSymlink (inode : Inode) : Bool := inode.kind == .symlink

/-- Permission bits of the mode. -/
def permissions (inode : Inode) : UInt16 := inode.mode &&& 0xFFF

end Inode

end XfsVolume
