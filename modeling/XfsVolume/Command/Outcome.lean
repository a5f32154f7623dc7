import XfsVolume.Fault
import XfsVolume.Report.Document

/-!
# Outcomes of commands

A command prints as it goes and may fail on the way; what it printed before stays printed. A failure
is told as its causes, outermost first.
-/

namespace XfsVolume

/-- A computation that prints and may fail with the texts of its causes. -/
abbrev CommandT (m : Type → Type) := ExceptT (List String) (StateT ByteArray m)

/-- What a command printed, and why it failed if it did. -/
structure Outcome where
  output : ByteArray
  failure : Option (List String)

namespace Outcome

/-- Exit code. -/
def code (o : Outcome) : Nat := if o.failure.isSome then 1 else 0

/-- What goes to the stream for errors. -/
def errorText (o : Outcome) : String :=
  match o.failure with
  | none => ""
  | some causes =>
    let told := ": ".intercalate causes
    s!"error: {told}\n"

end Outcome

namespace CommandT

variable {m : Type → Type} [Monad m] {α : Type}

/-- Prints bytes. -/
def emit (bytes : ByteArray) : CommandT m Unit :=
  modifyThe ByteArray (· ++ bytes)

/-- Prints a line. -/
def say (line : String) : CommandT m Unit := emit (line ++ "\n").toUTF8

/-- Prints lines. -/
def sayAll (lines : List String) : CommandT m Unit := lines.forM say

/-- Prints a document. -/
def sayDocument (d : Document) : CommandT m Unit := say d.print

/-- Goes on with a result, or fails with the texts of its error. -/
def orFail {ε : Type} (texts : ε → List String) : Except ε α → CommandT m α
  | .ok a => return a
  | .error e => throw (texts e)

/-- Goes on with a result, or fails in the given context. -/
def within (context : String) (x : Except Fault α) : CommandT m α :=
  orFail (fun fault => context :: fault.chain) x

/-- Outcome of a command. -/
def outcome (command : CommandT m Unit) : m Outcome := do
  let (result, output) ← command.run.run ByteArray.empty
  match result with
  | .ok _ => return { output, failure := none }
  | .error causes => return { output, failure := some causes }

end CommandT

end XfsVolume
