import XfsVolume.Extent.Cursor
import XfsVolume.Volume.Basic

/-!
# File data

The bytes of a file lie in its fork or in the blocks that the fork maps. Blocks outside every extent
and blocks that were never written read as zeros. A read ends at the end of the file, and goes along
an extent for a bounded number of blocks at a time.
-/

namespace XfsVolume

/-- Most blocks read from the device at a time. -/
def maxRun : Nat := 64

/-- Where a file block lies. -/
inductive Place
  | hole
  | mapped (physical : Nat) (unwritten : Bool)
  deriving DecidableEq

/-- The bytes of `pieces`, one after the other. -/
def joinBytes (pieces : List ByteArray) : ByteArray := pieces.foldl (· ++ ·) ByteArray.empty

namespace Volume

/-! ## The block map -/

/-- Where file block `logical` of inode `ino` lies. -/
def placeOf (v : Volume) (ino logical : Nat) : Except Fault Place := do
  let inode ← v.readInode ino
  if !inode.format.isMapped then return .hole
  match v.mapBlock inode logical with
  | .ok mapping => return .mapped mapping.physical mapping.unwritten
  | .error (.extentNotFound _) => return .hole
  | .error fault => throw fault

/-- Extents of inode `ino` in file order. -/
def extentsOf (v : Volume) (ino : Nat) : Except Fault (List Extent) := do
  let inode ← v.readInode ino
  if inode.format.isMapped then v.allExtents inode else return []

/-! ## Contents -/

/-- At most `remaining` bytes of a mapped fork at byte `offset`, as far as one extent or one missing
block goes. -/
def readRun (v : Volume) (inode : Inode) (offset remaining : Nat) : Except Fault ByteArray := do
  let bs := v.geometry.blockSize.toNat
  let logical := offset / bs
  let inBlock := offset % bs
  match v.findExtent inode logical with
  | .ok e =>
    let len := min (min (e.stop - logical) maxRun * bs - inBlock) remaining
    if e.unwritten then return zeros len
    let mapping ← v.mappingIn e logical
    let blocks ← v.readBlocks mapping.physical ((inBlock + len + bs - 1) / bs)
    return window blocks inBlock len
  | .error (.extentNotFound _) => return zeros (min (bs - inBlock) remaining)
  | .error fault => throw fault

/-- The `remaining` bytes of a mapped fork at byte `offset`, in pieces. Each piece has at least one
byte. -/
def readPieces (v : Volume) (inode : Inode) (offset remaining : Nat) :
    Except Fault (List ByteArray) := do
  if remaining = 0 then return []
  let piece ← v.readRun inode offset remaining
  if _h : 0 < piece.size ∧ 0 < remaining then
    return piece :: (← v.readPieces inode (offset + piece.size) (remaining - piece.size))
  else return []
termination_by remaining

/-- At most `len` bytes at `offset`, fewer where the file ends. -/
def readData (v : Volume) (inode : Inode) (offset len : Nat) : Except Fault ByteArray := do
  if inode.isDirectory then throw .isDirectory
  let size := inode.size.toNat
  if offset ≥ size then return ByteArray.empty
  let count := min len (size - offset)
  match inode.format with
  | .inline =>
    if offset + count > inode.fork.size then
      throw (.corruptInode inode.ino.toNat .inlineDataShort)
    return window inode.fork offset count
  | .extents | .btree => return joinBytes (← v.readPieces inode offset count)
  | .dev | .uuid => throw (.corruptInode inode.ino.toNat (.forkWithoutData inode.format))

/-- Reads from `offset` on into the front of `buffer`; the answer is the number of bytes read and the
buffer, which keeps what it held beyond them. -/
def readInto (v : Volume) (inode : Inode) (offset : Nat) (buffer : ByteArray) :
    Except Fault (Nat × ByteArray) := do
  let data ← v.readData inode offset buffer.size
  return (data.size, overwrite buffer 0 data)

/-- At most `len` bytes at `offset` of file `ino`. -/
def readContents (v : Volume) (ino offset len : Nat) : Except Fault ByteArray := do
  v.readData (← v.readInode ino) offset len

end Volume

end XfsVolume
