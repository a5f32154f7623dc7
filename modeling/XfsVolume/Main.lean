import XfsVolume.Command.ImageTool
import XfsVolume.Command.Inspector

/-!
# The command line

Runs the inspector, or the image tool when the first argument is one of its words.
-/

namespace XfsVolume

/-- The operating system's code of a failed call. -/
def codeOf : IO.Error → Nat
  | .alreadyExists _ code _ | .otherError code _ | .resourceBusy code _
  | .resourceVanished code _ | .unsupportedOperation code _ | .hardwareFault code _
  | .unsatisfiedConstraints code _ | .illegalOperation code _ | .protocolError code _
  | .timeExpired code _ | .interrupted _ code _ | .noFileOrDirectory _ code _
  | .invalidArgument _ code _ | .permissionDenied _ code _ | .resourceExhausted _ code _
  | .inappropriateType _ code _ | .noSuchThing _ code _ => code.toNat
  | .unexpectedEof | .userError _ => OsError.io

/-- The host whose files are the operating system's. -/
def systemHost : Host IO where
  read path := do
    try return .ok (← IO.FS.readBinFile path)
    catch e => return .error (codeOf e)
  write path bytes := do
    try return .ok (← IO.FS.writeBinFile path bytes)
    catch e => return .error (codeOf e)

/-- The words of the image tool. -/
def imageToolWords : List String := ["check-fixtures", "gen-sample"]

end XfsVolume

open XfsVolume in
/-- Runs the command line. -/
def main (args : List String) : IO UInt32 := do
  let tool := args.head?.any imageToolWords.contains
  let o ← if tool then ImageTool.run systemHost args else Inspector.run systemHost args
  let out ← IO.getStdout
  out.write o.output
  out.flush
  let err ← IO.getStderr
  err.putStr o.errorText
  return UInt32.ofNat o.code
