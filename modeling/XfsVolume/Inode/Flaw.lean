import XfsVolume.Error.Decode

/-!
# Fork formats and inode flaws

How an inode's data fork is encoded, and what can be wrong with an inode or with its number.
-/

namespace XfsVolume

/-- Encoding of an inode's data fork. -/
inductive ForkFormat
  /-- A device number. -/
  | dev
  /-- The contents themselves. -/
  | inline
  /-- A list of extents. -/
  | extents
  /-- The root of an extent tree. -/
  | btree
  /-- A volume identifier. -/
  | uuid
  deriving DecidableEq

namespace ForkFormat

/-- On-disk code of a fork format. -/
def code : ForkFormat → UInt8
  | dev => 0
  | inline => 1
  | extents => 2
  | btree => 3
  | uuid => 4

/-- Fork format with the given code. -/
def ofCode? : UInt8 → Option ForkFormat
  | 0 => some dev
  | 1 => some inline
  | 2 => some extents
  | 3 => some btree
  | 4 => some uuid
  | _ => none

/-- Name of a fork format in messages. -/
def name : ForkFormat → String
  | dev => "Dev"
  | inline => "Local"
  | extents => "Extents"
  | btree => "Btree"
  | uuid => "Uuid"

/-- Fork format with the given name. -/
def ofName? (s : String) : Option ForkFormat :=
  [dev, inline, extents, btree, uuid].find? (·.name == s)

/-- True when the fork maps file blocks to blocks of the volume. -/
def isMapped : ForkFormat → Bool
  | extents | btree => true
  | dev | inline | uuid => false

end ForkFormat

/-- What can be wrong with the header of a block of a remote symlink target. -/
inductive LinkHeaderFlaw
  | decode (e : DecodeError)
  | badMagic (magic : Nat)
  /-- The header claims other target bytes than the block's place says. -/
  | covers (bytes offset wantBytes wantOffset : Nat)
  | owner (ino : Nat)
  deriving DecidableEq

/-- What can be wrong with an inode. -/
inductive InodeFlaw
  | decode (e : DecodeError)
  | notInUse
  | unknownType (bits : Nat)
  /-- The fork format does not suit the file type. -/
  | forkOnMode (format : ForkFormat) (mode : Nat)
  | extentsOverflow (count forkLen : Nat)
  | rootOverflow (forkLen : Nat)
  | inlineOverflow (size forkLen : Nat)
  | forkOnDirectory (format : ForkFormat)
  | forkOnSymlink (format : ForkFormat)
  | forkWithoutData (format : ForkFormat)
  | inlineDataShort
  | inlineTargetShort
  | linkLength (size limit : Nat)
  | linkBlockUnmapped (logical : Nat)
  | linkBlockEmpty
  | linkBlock (block : Nat) (flaw : LinkHeaderFlaw)
  /-- Any other flaw, in words. -/
  | other (text : String)
  deriving DecidableEq

/-- Why an inode number names no place on the volume. -/
inductive InodeRangeFlaw
  | decode (e : DecodeError)
  | beyondVolume (block dataBlocks : Nat)
  | beyondDevice (block blockCount : Nat)
  | crossesBlock
  /-- Any other reason, in words. -/
  | other (text : String)
  deriving DecidableEq

/-- `n` in hexadecimal, marked, with at least eight digits. -/
def wordText (n : Nat) : String :=
  let ds := Nat.toDigits 16 n
  "0x" ++ String.ofList (List.replicate (8 - ds.length) '0' ++ ds)

/-- Text of a flaw of a remote symlink header. -/
def LinkHeaderFlaw.message : LinkHeaderFlaw → String
  | .decode e => e.message
  | .badMagic magic => s!"bad magic {wordText magic}"
  | .covers bytes offset wantBytes wantOffset =>
    s!"header covers {bytes} bytes at {offset}, expected {wantBytes} at {wantOffset}"
  | .owner ino => s!"owned by inode {ino}"

/-- Text of an inode flaw. -/
def InodeFlaw.message : InodeFlaw → String
  | .decode e => e.message
  | .notInUse => "inode is not in use"
  | .unknownType bits => s!"unknown file type bits {octText bits}"
  | .forkOnMode format mode => s!"{format.name} fork on mode {octText mode}"
  | .extentsOverflow count forkLen => s!"{count} extents do not fit a {forkLen}-byte fork"
  | .rootOverflow forkLen => s!"{forkLen}-byte fork cannot hold a btree root"
  | .inlineOverflow size forkLen => s!"inline size {size} exceeds the {forkLen}-byte fork"
  | .forkOnDirectory format => s!"{format.name} fork on a directory"
  | .forkOnSymlink format => s!"{format.name} fork on a symlink"
  | .forkWithoutData format => s!"{format.name} fork holds no file data"
  | .inlineDataShort => "inline data shorter than di_size"
  | .inlineTargetShort => "inline target shorter than di_size"
  | .linkLength size limit => s!"symlink length {size} outside 1..={limit}"
  | .linkBlockUnmapped logical => s!"symlink block {logical} is not mapped"
  | .linkBlockEmpty => "symlink block holds no payload"
  | .linkBlock block flaw => s!"symlink block {block}: {flaw.message}"
  | .other text => text

/-- Text of the reason for which an inode number names no place. -/
def InodeRangeFlaw.message : InodeRangeFlaw → String
  | .decode e => e.message
  | .beyondVolume block dataBlocks => s!"block {block} beyond sb_dblocks {dataBlocks}"
  | .beyondDevice block blockCount => s!"block {block} beyond device end {blockCount}"
  | .crossesBlock => "inode slot crosses the block end"
  | .other text => text

end XfsVolume
