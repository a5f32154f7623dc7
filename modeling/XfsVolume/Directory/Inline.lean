import XfsVolume.Bytes
import XfsVolume.Directory.NameHash

/-!
# Directories stored in their inode

A small directory lies in the literal area of its inode: a header with the entry count and the
parent's inode number, and the entries after it. Inode numbers have four bytes, or eight if the
header counts any that need them. The directory's own entry and that of its parent are not stored.
-/

namespace XfsVolume

/-- Header of an inline directory. -/
structure InlineHeader where
  count : UInt8
  /-- Inode numbers that need eight bytes. -/
  wideCount : UInt8
  parent : Nat
  deriving DecidableEq

namespace InlineHeader

/-- Bytes of an inode number. -/
def inoWidth (h : InlineHeader) : Nat := if h.wideCount > 0 then 8 else 4

/-- Header length; the first entry starts after it. -/
def length (h : InlineHeader) : Nat := 2 + h.inoWidth

end InlineHeader

/-- Inode number of `width` bytes at `off`. -/
def readInlineIno (fork : ByteArray) (off width : Nat) : Except DecodeError Nat :=
  if width = 8 then UInt64.toNat <$> readU64 fork off else UInt32.toNat <$> readU32 fork off

/-- Header of an inline directory. -/
def InlineHeader.decode (fork : ByteArray) : Except DecodeError InlineHeader := do
  let count ← readU8 fork 0
  let wideCount ← readU8 fork 1
  let parent ← readInlineIno fork 2 (if wideCount > 0 then 8 else 4)
  return { count, wideCount, parent }

/-- An entry of an inline directory. -/
structure InlineEntry where
  name : Name
  /-- Offset that the entry would have in a data block. -/
  offset : UInt16
  /-- File type code, where the volume records it. -/
  ftype : Option UInt8
  ino : Nat
  /-- Bytes of the entry. -/
  length : Nat
  deriving DecidableEq

/-- Entry at `off`. -/
def InlineEntry.decode (fork : ByteArray) (off inoWidth : Nat) (ftype : Bool) :
    Except DecodeError InlineEntry := do
  let nameLength := (← readU8 fork off).toNat
  if nameLength = 0 then throw (.invalidField "sfe_namelen" "zero-length name")
  let name ← readBytes fork (off + 3) nameLength
  let code ← if ftype then some <$> readU8 fork (off + 3 + nameLength) else pure none
  let inoOff := off + 3 + nameLength + ftype.toNat
  let ino ← readInlineIno fork inoOff inoWidth
  let offset ← readU16 fork (off + 1)
  return { name := byteList name, offset, ftype := code, ino, length := inoOff + inoWidth - off }

/-- Entries met by a walk, and where and why it ended early. -/
structure InlineWalk where
  entries : List InlineEntry
  stoppedBy : Option (Nat × DecodeError)
  deriving DecidableEq

/-- Walks `n` entries from `off` on. -/
def walkInline (fork : ByteArray) (inoWidth : Nat) (ftype : Bool) :
    (n off : Nat) → InlineWalk
  | 0, _ => ⟨[], none⟩
  | n + 1, off =>
    match InlineEntry.decode fork off inoWidth ftype with
    | .error e => ⟨[], some (off, e)⟩
    | .ok entry =>
      let rest := walkInline fork inoWidth ftype n (off + entry.length)
      ⟨entry :: rest.entries, rest.stoppedBy⟩

end XfsVolume
