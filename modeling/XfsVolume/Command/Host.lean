import XfsVolume.Error.Os

/-!
# Hosts of commands

A command reads and writes whole files through its host, which answers a failed call with the
operating system's code. A tree of files kept in memory is a host of its own: a directory is what
lies above a file, and the tree's top is where relative paths start. Paths may also lead above the
top or start from the root of all files; nothing is known there but what was written.

A path is followed name by name, and every name but the last must lead to a directory. A slash at
its end asks for a directory, which cannot be written as a file, whether it exists or not.
-/

namespace XfsVolume

/-- The files that a command can reach from `m`. -/
structure Host (m : Type → Type) where
  read : String → m (Except Nat ByteArray)
  write : String → ByteArray → m (Except Nat Unit)

/-- Files by the names on the way to them. -/
structure FileTree where
  files : List (List String × ByteArray) := []

namespace FileTree

/-- Longest name of a file. -/
def maxName : Nat := 255

/-- Longest path. -/
def maxPath : Nat := 4095

/-- The name that leads to the directory above. -/
def upName : String := ".."

/-- Place of the root of all files, where absolute paths start. -/
def root : List String := ["/"]

/-- Contents of the file at `place`. -/
def find? (t : FileTree) (place : List String) : Option ByteArray := t.files.lookup place

/-- True when `place` is the top, the root or above the top, or lies above a file. -/
def isDirectory (t : FileTree) (place : List String) : Bool :=
  place == root || place.all (· == upName) ||
    t.files.any fun f => place.isPrefixOf f.1 && place != f.1

/-- The directory above directory `place`. The root is its own. -/
def above (place : List String) : List String :=
  if place == root then root
  else if place.all (· == upName) then place ++ [upName]
  else place.dropLast

/-- The place to which the names lead from directory `place`; the last of them need not exist. The
empty name stands between two slashes and after one at the end. -/
def follow (t : FileTree) : (place names : List String) → Except Nat (List String)
  | place, [] => .ok place
  | place, name :: rest =>
    if (t.find? place).isSome then .error OsError.notDirectory
    else if !t.isDirectory place then .error OsError.noEntry
    else if name = "." || name = "" then t.follow place rest
    else if name = upName then t.follow (above place) rest
    else if maxName < name.utf8ByteSize then .error OsError.nameTooLong
    else t.follow (place ++ [name]) rest

/-- Where a path starts, and the names along it. -/
def splitPath (path : String) : Except Nat (List String × List String) :=
  if path = "" then .error OsError.noEntry
  else if maxPath < path.utf8ByteSize then .error OsError.nameTooLong
  else .ok (if path.startsWith "/" then root else [], path.splitOn "/")

/-- Contents of the file at a path. -/
def read (t : FileTree) (path : String) : Except Nat ByteArray := do
  let (start, names) ← splitPath path
  let place ← t.follow start names
  match t.find? place with
  | some bytes => return bytes
  | none => throw (if t.isDirectory place then OsError.isDirectory else OsError.noEntry)

/-- The tree with `bytes` as the file at a path, whose directory must exist. Of a path with a slash
at its end the last name is not looked up. -/
def write (t : FileTree) (path : String) (bytes : ByteArray) : Except Nat FileTree := do
  let (start, names) ← splitPath path
  if names.getLast? = some "" then
    let _ ← t.follow start ((names.filter (· ≠ "")).dropLast ++ [""])
    throw OsError.isDirectory
  let place ← t.follow start names
  if t.isDirectory place then throw OsError.isDirectory
  return ⟨(place, bytes) :: t.files.filter (·.1 ≠ place)⟩

/-- The host whose files are a tree. -/
def host : Host (StateM FileTree) where
  read path := return (← get).read path
  write path bytes := do
    match (← get).write path bytes with
    | .ok t =>
      set t
      return .ok ()
    | .error code => return .error code

end FileTree

end XfsVolume
