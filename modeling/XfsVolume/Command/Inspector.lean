import XfsVolume.Command.Host
import XfsVolume.Command.Outcome
import XfsVolume.Command.Request
import XfsVolume.Report.Structures
import XfsVolume.Volume.Path
import XfsVolume.Volume.Symlink

/-!
# The inspector

Answers one request about an image: what its superblock says, what a directory lists, what a file
holds, what an inode's attributes are, where a file's blocks lie, or where a symlink leads.
-/

namespace XfsVolume.Inspector

/-- How the inspector is called. -/
def usage : List String := [
  "xfsr",
  "",
  "USAGE:",
  "  xfsr inspect <image> [--json]",
  "  xfsr ls <image> [path] [--json]",
  "  xfsr cat <image> <path>",
  "  xfsr stat <image> <path> [--json]",
  "  xfsr bmap <image> <path> [--json]",
  "  xfsr readlink <image> <path>",
  "",
  "All commands accept --skip-validation to mount a superblock that fails checks."]

/-- Words that ask for the usage. -/
def helpWords : List String := ["--help", "-h", "help"]

/-- Bytes of a file that are read at once. -/
def chunkLength : Nat := 1024 * 1024

/-- `s` with blanks before it up to `width` characters. -/
def padLeft (width : Nat) (s : String) : String :=
  String.ofList (List.replicate (width - s.length) ' ') ++ s

/-- `s` with blanks after it up to `width` characters. -/
def padRight (width : Nat) (s : String) : String :=
  s ++ String.ofList (List.replicate (width - s.length) ' ')

/-- Short name of a kind in listings. -/
def kindLabel : FileKind → String
  | .unknown => "unknown"
  | .regular => "file"
  | .directory => "dir"
  | .charDevice => "chardev"
  | .blockDevice => "blkdev"
  | .fifo => "fifo"
  | .socket => "socket"
  | .symlink => "symlink"

/-! ## Lines and documents -/

/-- What is told of a volume as a whole. -/
def overview (v : Volume) : List (String × Document) :=
  let geo := v.geometry
  [("version", .nat v.superblock.version.toNat),
   ("label", .text v.superblock.label),
   ("block_size", .nat geo.blockSize.toNat),
   ("dblocks", .nat geo.dataBlocks.toNat),
   ("ag_count", .nat geo.agCount.toNat),
   ("ag_blocks", .nat geo.agBlocks.toNat),
   ("inode_size", .nat geo.inodeSize.toNat),
   ("dir_block_size", .nat geo.dirBlockSize.toNat),
   ("root_ino", .nat geo.rootIno.toNat),
   ("v5", .flag geo.isV5),
   ("ftype", .flag geo.hasFtype)]

/-- A field of a single value as it stands in a line. -/
def plain : Document → String
  | .text s => s
  | d => d.print

/-- Line of a directory entry. -/
def entryLine (e : DirEntry) : String :=
  s!"{padLeft 12 (toString e.ino)} {padRight 8 (kindLabel e.kind)} {lossyText e.name}"

/-- Line of an extent. -/
def extentLine (e : Extent) : String :=
  let mark := if e.unwritten then " unwritten" else ""
  s!"[{e.start}..{e.stop - 1}]: fsblock {e.address} ({e.count} blocks){mark}"

/-- Lines about an inode. -/
def statLines (path : String) (a : Attributes) (format : Option DirFormat) : List String :=
  [s!"path: {path}",
   s!"ino: {a.ino}",
   s!"kind: {a.kind.name}",
   s!"perm: {digits 8 a.permissions.toNat}",
   s!"size: {a.size}",
   s!"blocks: {a.units}",
   s!"nlink: {a.nlink}",
   s!"uid: {a.uid}",
   s!"gid: {a.gid}"] ++
  (if a.device ≠ 0 then [s!"rdev: {a.device.toNat / 256}:{a.device.toNat % 256}"] else []) ++
  (format.map fun f => s!"dir_format: {f.name}").toList

/-- True when every time of an inode can be told as time since the epoch. -/
def timesSinceEpoch (a : Attributes) : Bool :=
  [a.atime, a.mtime, a.ctime, a.crtime].all (0 ≤ ·.sec)

/-- Document about an inode. -/
def statDocument (path : String) (a : Attributes) (format : Option DirFormat) : Document :=
  .record ([("path", .text path)] ++ a.fields Timestamp.sinceEpoch ++
    [("dir_format", .ofOption (fun f => .text f.name) format)])

/-! ## Answering -/

variable {m : Type → Type} [Monad m]

open CommandT

/-- Prints an inode's attributes. -/
def sayStat (v : Volume) (json : Bool) (path : String) (ino : Nat) : CommandT m Unit := do
  let a ← within s!"failed to stat {path}" (v.attributes ino)
  let format ←
    if a.kind = .directory then some <$> orFail Fault.chain (v.formatOf ino) else pure none
  if !json then sayAll (statLines path a format)
  else if timesSinceEpoch a then sayDocument (statDocument path a format)
  else throw ["serialize output", "SystemTime must be later than UNIX_EPOCH"]

/-- Prints what a file holds from `offset` on, read in at most `fuel` chunks. -/
def emitFrom (v : Volume) (path : String) (ino : Nat) : (fuel offset : Nat) → CommandT m Unit
  | 0, _ => return
  | fuel + 1, offset => do
    let chunk ← within s!"failed to read {path} at offset {offset}"
      (v.readContents ino offset chunkLength)
    if chunk.isEmpty then return
    emit chunk
    emitFrom v path ino fuel (offset + chunk.size)

/-- Prints what a file holds. -/
def emitContents (v : Volume) (path : String) (ino : Nat) : CommandT m Unit := do
  let a ← within s!"failed to read {path} at offset 0" (v.attributes ino)
  emitFrom v path ino (a.size / chunkLength + 2) 0

/-- Answers an inquiry about a volume. -/
def answer (inquiry : Inquiry) (args : Arguments) (v : Volume) : CommandT m Unit := do
  if inquiry = .inspect then
    if args.json then sayDocument (.record (overview v))
    else sayAll ("XFS Inspector" :: (overview v).map fun (key, d) => s!"{key}: {plain d}")
  else
    let path := args.path.getD "/"
    let (resolved, cache) := (v.resolve path).run.run v.emptyCache
    let (ino, _) ← within s!"failed to resolve {path}" resolved
    match inquiry with
    | .inspect => return
    | .list =>
      let entries ← within s!"failed to list {path}" ((v.listAll ino).run.run cache).1
      if args.json then sayDocument (.items (entries.map DirEntry.report))
      else sayAll (entries.map entryLine)
    | .contents => emitContents v path ino
    | .stat => sayStat v args.json path ino
    | .extents =>
      let extents ← within s!"failed to map {path}" (v.extentsOf ino)
      if args.json then sayDocument (.items (extents.map Extent.report))
      else sayAll (extents.map extentLine)
    | .linkTarget =>
      let target ← within s!"failed to read link {path}" (v.readLink ino)
      say (lossyText (byteList target))

/-- Opens the image and answers an inquiry about it. -/
def inquire (host : Host m) (inquiry : Inquiry) (args : Arguments) : CommandT m Unit := do
  let context := s!"failed to mount XFS image: {args.image}"
  let file ← (host.read args.image : m _)
  let bytes ← within context (file.mapError fun code => Fault.io (.os code))
  let v ← within context
    (Volume.mountBytes bytes { skipValidation := args.skipValidation })
  answer inquiry args v

/-- Runs the inspector. -/
def command (host : Host m) : List String → CommandT m Unit
  | [] => sayAll usage
  | word :: rest => do
    if helpWords.contains word then sayAll usage
    else
      let args ← orFail (fun flaw => [ArgumentFlaw.message flaw]) (Arguments.ofList word rest)
      match Inquiry.ofWord? word with
      | none =>
        sayAll usage
        throw [(ArgumentFlaw.unknownCommand word).message]
      | some inquiry =>
        if inquiry.needsPath && args.path.isNone then
          throw [(ArgumentFlaw.missingPath word).message]
        inquire host inquiry args

/-- Outcome of running the inspector. -/
def run (host : Host m) (args : List String) : m Outcome := outcome (command host args)

end XfsVolume.Inspector
