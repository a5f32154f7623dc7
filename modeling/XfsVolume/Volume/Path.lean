import XfsVolume.Volume.Names

/-!
# Paths

A path is absolute, and only its non-empty components count. It is walked from the root, one look-up
a component; symlinks are not followed, so a component that stands behind one is missing its
directory. Whether a component may be looked up at all is decided before the look-up.
-/

namespace XfsVolume

/-- The parts of a text between its slashes, empty ones included. -/
def splitSlash : List Char → List (List Char)
  | [] => [[]]
  | c :: cs =>
    match splitSlash cs with
    | [] => [[c]]
    | part :: parts => if c = '/' then [] :: part :: parts else (c :: part) :: parts

/-- The non-empty parts of a path. -/
def pathComponents (path : String) : List String :=
  ((splitSlash path.toList).filter (!·.isEmpty)).map String.ofList

/-- The bytes by which a text names an entry. -/
def nameOfText (s : String) : Name := byteList s.toUTF8

namespace Volume

/-- Walks `components` from inode `ino`. -/
def walk (v : Volume) : (components : List String) → Nat → Inode → CacheM (Nat × Inode)
  | [], ino, inode => return (ino, inode)
  | component :: rest, _, inode => do
    if !inode.isDirectory then throw .notDirectory
    match ← v.lookupName inode (nameOfText component) with
    | none => throw (.notFound component)
    | some (next, _) => v.walk rest next (← v.readInode next)

/-- The inode at the end of an absolute path. -/
def resolve (v : Volume) (path : String) : CacheM (Nat × Inode) := do
  if path.toList.head? ≠ some '/' then throw (.invalidPath (.notAbsolute path))
  v.walk (pathComponents path) v.root (← v.readInode v.root)

end Volume

end XfsVolume
