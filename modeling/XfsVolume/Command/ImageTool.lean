import XfsVolume.Command.Host
import XfsVolume.Command.Outcome
import XfsVolume.Fixture.Basic
import XfsVolume.Image.Sample

/-!
# The image tool

Checks the superblock fixtures and writes the sample volume to a file.
-/

namespace XfsVolume.ImageTool

/-- Directory of the fixtures. -/
def fixtureDirectory : String := "conformance/fixtures"

/-- The fixtures that are checked, in this order. -/
def fixtureNames : List String := ["xfs_superblock_v5.json", "xfs_superblock_v4.json"]

/-- The flag that asks for a volume of version 4. -/
def v4Flag : String := "--v4"

/-- How the sample volume is asked for. -/
def sampleUsage : String := "gen-sample <out> [--v4]"

/-- How the tool is called. -/
def usage : String := s!"usage: xfsr-harness <check-fixtures|{sampleUsage}>"

variable {m : Type → Type} [Monad m]

open CommandT

/-- Line about a fixture's superblock. -/
def fixtureLine (name : String) (sb : Superblock) : String :=
  s!"{name}: version={sb.version} block_size={sb.blockSize} ag_count={sb.agCount} " ++
    s!"root_ino={sb.rootIno}"

/-- Checks the fixture of this name. -/
def checkFixture (host : Host m) (name : String) : CommandT m Unit := do
  let path := s!"{fixtureDirectory}/{name}"
  let file ← (host.read path : m _)
  let sb ← orFail FixtureFault.chain (fixtureSuperblock path file)
  say (fixtureLine name sb)

/-- Writes the sample volume to the file at `out`. -/
def writeSample (host : Host m) (out : String) (options : ImageOptions) : CommandT m Unit := do
  let (image, inodes) ← orFail (fun fault => [BuildFault.message fault]) (sampleImage options)
  let written ← (host.write out image : m _)
  orFail (fun code => [s!"failed to write {out}", OsError.message code]) written
  say s!"wrote {image.size} bytes to {out} (root inode {inodes.root})"

/-- Runs the image tool. -/
def command (host : Host m) : List String → CommandT m Unit
  | "check-fixtures" :: _ => fixtureNames.forM (checkFixture host)
  | "gen-sample" :: args =>
    match args with
    | [] => throw [s!"usage: xfsr-harness {sampleUsage}"]
    | out :: _ => writeSample host out (if args.contains v4Flag then .v4 else {})
  | _ => throw [usage]

/-- Outcome of running the image tool. -/
def run (host : Host m) (args : List String) : m Outcome := outcome (command host args)

end XfsVolume.ImageTool
