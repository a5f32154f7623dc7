import XfsVolume.Volume.Basic

/-!
# Names on a volume

Directories of a volume by inode number. Where entries do not record the kind of file they name, it
is taken from the mode of the inode, so that a look-up and a listing tell the same.
-/

namespace XfsVolume.Volume

/-- The kind recorded in an entry of inode `ino`, or that of the inode. -/
def entryKind (v : Volume) (ino : Nat) (recorded : FileKind) : Except Fault FileKind := do
  if recorded ≠ .unknown || v.geometry.hasFtype then return recorded
  else return (← v.readInode ino).kind

/-- Format of directory `ino`. -/
def formatOf (v : Volume) (ino : Nat) : Except Fault DirFormat := do
  v.dirFormat (← v.readInode ino)

/-- The inode that `name` names in directory `parent`, and its kind. -/
def lookup (v : Volume) (parent : Nat) (name : Name) : CacheM (Option (Nat × FileKind)) := do
  let dir ← v.readInode parent
  match ← v.lookupName dir name with
  | none => return none
  | some (ino, recorded) => return some (ino, ← v.entryKind ino recorded)

/-- Entry of directory `dir` at or after `cursor`, with its kind. -/
def nextKnown (v : Volume) (format : DirFormat) (dir : Inode) (cursor : DirCursor) :
    CacheM (Option (DirEntry × DirCursor)) := do
  match ← v.nextEntryAs format dir cursor with
  | none => return none
  | some (entry, next) =>
    return some ({ entry with kind := ← v.entryKind entry.ino entry.kind }, next)

/-- Entry of directory `ino` at or after `cursor`, and the cursor after it. -/
def entryAfter (v : Volume) (ino : Nat) (cursor : DirCursor) :
    CacheM (Option (DirEntry × DirCursor)) := do
  let dir ← v.readInode ino
  v.nextKnown (← v.dirFormat dir) dir cursor

/-- Entries of directory `ino` from `cursor` on, each with the cursor after it. -/
def listAfter (v : Volume) (ino : Nat) (cursor : DirCursor) :
    CacheM (List (DirEntry × DirCursor)) := do
  let dir ← v.readInode ino
  let format ← v.dirFormat dir
  Medium.listFrom (v.nextKnown format dir) v.listingSteps cursor []

/-- Every entry of directory `ino`. -/
def listAll (v : Volume) (ino : Nat) : CacheM (List DirEntry) := do
  return (← v.listAfter ino 0).map Prod.fst

end XfsVolume.Volume
