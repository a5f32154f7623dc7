import XfsVolume.Error.Os
import XfsVolume.Fixture.Hex
import XfsVolume.Json.Value
import XfsVolume.Superblock

/-!
# Sparse fixtures

A sparse fixture describes the start of a volume as a JSON document: its size, and payloads to be
written over zeros at their offsets, a later one over an earlier one.
-/

namespace XfsVolume

/-- A payload, still as text, and where it goes. -/
structure FixtureWrite where
  offset : Nat
  hex : String
  deriving DecidableEq

/-- A volume's size and what it holds besides zeros. -/
structure SparseFixture where
  size : Nat
  writes : List FixtureWrite
  deriving DecidableEq

/-- Reason for which a fixture's file could not be read as text. -/
inductive TextFileFlaw
  | os (code : Nat)
  | notUtf8
  deriving DecidableEq

/-- Text of the reason. -/
def TextFileFlaw.message : TextFileFlaw → String
  | os code => OsError.message code
  | notUtf8 => "stream did not contain valid UTF-8"

/-- Reason for which a fixture cannot be loaded. -/
inductive FixtureFault
  | unreadable (path : String) (flaw : TextFileFlaw)
  /-- The file is not the document expected; `detail` says why and where. -/
  | badDocument (path detail : String)
  | badPayload (offset : Nat) (flaw : HexFlaw)
  | offsetOverflow
  | outOfBounds (offset payload size : Nat)
  | notSuperblock (path : String) (e : DecodeError)
  | badSuperblock (path : String) (e : DecodeError)
  deriving DecidableEq

namespace FixtureFault

/-- Text of a fixture fault. -/
def message : FixtureFault → String
  | unreadable path _ => s!"failed to read fixture {path}"
  | badDocument path _ => s!"invalid fixture json {path}"
  | badPayload offset _ => s!"invalid hex at offset {offset}"
  | offsetOverflow => "fixture offset overflow"
  | outOfBounds offset payload size =>
    s!"fixture write out of bounds: offset={offset} payload={payload} size={size}"
  | notSuperblock path _ => s!"failed superblock parse for fixture {path}"
  | badSuperblock path _ => s!"superblock validation failed for fixture {path}"

/-- Texts of a fixture fault and of its cause, outermost first. -/
def chain (fault : FixtureFault) : List String :=
  fault.message :: match fault with
    | unreadable _ flaw => [flaw.message]
    | badDocument _ detail => [detail]
    | badPayload _ flaw => [flaw.message]
    | notSuperblock _ e | badSuperblock _ e => [e.message]
    | offsetOverflow | outOfBounds .. => []

end FixtureFault

namespace SparseFixture

/-- Reads one write. -/
def scanWrite : JsonReader FixtureWrite := do
  let (offset, hex) ← JsonReader.pairValue "FixtureWrite" ⟨"offset", JsonReader.wordValue⟩
    ⟨"hex", JsonReader.textValue⟩
  return { offset, hex }

/-- Reads a fixture. -/
def scan : JsonReader SparseFixture := do
  let (size, writes) ← JsonReader.pairValue "SparseFixture" ⟨"size", JsonReader.wordValue⟩
    ⟨"writes", JsonReader.listValue scanWrite⟩
  return { size, writes }

/-- The fixture in the file at `path`, of which `file` is what reading it gave. -/
def ofFile (path : String) (file : Except Nat ByteArray) :
    Except FixtureFault SparseFixture := do
  let bytes ← file.mapError fun code => FixtureFault.unreadable path (.os code)
  if (String.fromUTF8? bytes).isNone then throw (.unreadable path .notUtf8)
  let input := byteList bytes
  (JsonReader.run scan input).mapError fun e => .badDocument path (e.message input)

/-- The payload of a write, if it lies inside the fixture. -/
def payload (fixture : SparseFixture) (w : FixtureWrite) :
    Except FixtureFault (Nat × ByteArray) := do
  let bytes ← (hexBytes w.hex).mapError fun flaw => FixtureFault.badPayload w.offset flaw
  let stop := w.offset + bytes.length
  if wordLimit ≤ stop then throw .offsetOverflow
  if fixture.size < stop then throw (.outOfBounds w.offset bytes.length fixture.size)
  return (w.offset, bytes.toByteArray)

/-- Bytes that the fixture describes. -/
def bytes (fixture : SparseFixture) : Except FixtureFault ByteArray := do
  let payloads ← fixture.writes.mapM fixture.payload
  return payloads.foldl (fun acc w => overwrite acc w.1 w.2) (zeros fixture.size)

end SparseFixture

/-- Bytes of the fixture in the file at `path`. -/
def loadFixture (path : String) (file : Except Nat ByteArray) :
    Except FixtureFault ByteArray := do
  (← SparseFixture.ofFile path file).bytes

/-- The superblock of the fixture in the file at `path`, if it passes every check. -/
def fixtureSuperblock (path : String) (file : Except Nat ByteArray) :
    Except FixtureFault Superblock := do
  let region ← loadFixture path file
  let sb ← (Superblock.decode region).mapError (FixtureFault.notSuperblock path)
  sb.validate.mapError (FixtureFault.badSuperblock path)
  return sb

end XfsVolume
