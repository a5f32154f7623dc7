import XfsVolume.Error.Decode

/-!
# Documents

What a tool reports for other tools is a document: numbers, texts, lists and records whose fields
keep their order. A document is printed over several lines, each level two spaces further in; empty
lists and records stay on one line.
-/

namespace XfsVolume

/-- A structured report. -/
inductive Document
  | null
  | flag (b : Bool)
  | number (n : Int)
  | text (s : String)
  | items (ds : List Document)
  | record (fields : List (String × Document))

namespace Document

/-- `n` as a document. -/
def nat (n : Nat) : Document := number n

/-- A document, or the null document where there is none. -/
def ofOption {α : Type} (f : α → Document) : Option α → Document
  | some a => f a
  | none => null

/-- Printed form of one character of a text. -/
def escapedChar (c : Char) : List Char :=
  match c with
  | '"' => ['\\', '"']
  | '\\' => ['\\', '\\']
  | '\n' => ['\\', 'n']
  | '\r' => ['\\', 'r']
  | '\t' => ['\\', 't']
  | '\x08' => ['\\', 'b']
  | '\x0C' => ['\\', 'f']
  | c =>
    if c.toNat < 0x20 then
      ['\\', 'u', '0', '0', Nat.digitChar (c.toNat / 16), Nat.digitChar (c.toNat % 16)]
    else [c]

/-- Printed form of a text. -/
def printText (s : String) : String :=
  String.ofList ('"' :: s.toList.flatMap escapedChar ++ ['"'])

/-- A new line, `depth` levels in. -/
def newline (depth : Nat) : String := "\n" ++ String.ofList (List.replicate (2 * depth) ' ')

mutual

/-- Printed form of a document that starts `depth` levels in. -/
def printAt (depth : Nat) : Document → String
  | null => "null"
  | flag b => if b then "true" else "false"
  | number n => toString n
  | text s => printText s
  | items [] => "[]"
  | items (d :: ds) =>
    "[" ++ newline (depth + 1) ++ printAt (depth + 1) d ++ printItems (depth + 1) ds ++
      newline depth ++ "]"
  | record [] => "\x7b\x7d"
  | record ((k, d) :: fields) =>
    "\x7b" ++ newline (depth + 1) ++ printText k ++ ": " ++ printAt (depth + 1) d ++
      printFields (depth + 1) fields ++ newline depth ++ "\x7d"

/-- Printed form of the further members of a list. -/
def printItems (depth : Nat) : List Document → String
  | [] => ""
  | d :: ds => "," ++ newline depth ++ printAt depth d ++ printItems depth ds

/-- Printed form of the further fields of a record. -/
def printFields (depth : Nat) : List (String × Document) → String
  | [] => ""
  | (k, d) :: fields =>
    "," ++ newline depth ++ printText k ++ ": " ++ printAt depth d ++ printFields depth fields

end

/-- Printed form of a document. -/
def print (d : Document) : String := printAt 0 d

end Document

end XfsVolume
