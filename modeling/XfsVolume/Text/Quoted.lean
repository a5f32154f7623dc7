import XfsVolume.Text.Unprintable

/-!
# Quoted text

A quoted text stands between double quotes and a quoted character between single ones; the quote
and the backslash are escaped by a backslash, the usual controls by their letter, and every other
unprintable character by its number.
-/

namespace XfsVolume

/-- One character between quotes that are `mark`. -/
def quotedChar (mark c : Char) : List Char :=
  match c with
  | '\x00' => ['\\', '0']
  | '\t' => ['\\', 't']
  | '\r' => ['\\', 'r']
  | '\n' => ['\\', 'n']
  | c =>
    if c = mark || c = '\\' then ['\\', c]
    else if isUnprintable c then
      ['\\', 'u', '\x7b'] ++ Nat.toDigits 16 c.toNat ++ ['\x7d']
    else [c]

/-- `s` between quotes. -/
def quoted (s : String) : String :=
  String.ofList (['"'] ++ s.toList.flatMap (quotedChar '"') ++ ['"'])

/-- `c` between single quotes. -/
def quotedSymbol (c : Char) : String :=
  String.ofList (['\x27'] ++ quotedChar '\x27' c ++ ['\x27'])

end XfsVolume
