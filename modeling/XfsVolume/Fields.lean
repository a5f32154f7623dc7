import XfsVolume.Bytes

/-!
# Blocks of fields

A block of fixed layout is written as a list of fields over zeros: each field is a number, the place
of its first byte and its width. Fields are written in order, most significant byte first. The
other helpers here lay out sequences: equal runs of a list, and each member with its neighbours.
-/

namespace XfsVolume

/-- A big-endian number in a block. -/
structure Field where
  offset : Nat
  width : Nat
  value : Nat
  deriving DecidableEq

/-- `block` with the fields written over it, in order. -/
def writeFields (block : ByteArray) (fields : List Field) : ByteArray :=
  fields.foldl (fun b f => putBE b f.offset f.width f.value) block

/-- `size` bytes that are zero but for the fields. -/
def blockOf (size : Nat) (fields : List Field) : ByteArray := writeFields (zeros size) fields

/-- Fields of equal width, one after the other from `offset` on. -/
def fieldRun (offset width : Nat) : List Nat → List Field
  | [] => []
  | v :: vs => ⟨offset, width, v⟩ :: fieldRun (offset + width) width vs

/-- `xs` cut into runs of `n`, the last of which may be shorter. -/
def chunksOf {α : Type} (n : Nat) (xs : List α) : List (List α) :=
  if _h : n = 0 ∨ xs.length = 0 then []
  else xs.take n :: chunksOf n (xs.drop n)
termination_by xs.length
decreasing_by simp only [List.length_drop]; omega

/-- Each member of a list between the one before it and the one after it; `left` stands before the
first and `outer` after the last. -/
def neighbours (outer : Nat) : (left : Nat) → List Nat → List (Nat × Nat × Nat)
  | _, [] => []
  | left, [x] => [(left, x, outer)]
  | left, x :: y :: rest => (left, x, y) :: neighbours outer x (y :: rest)

end XfsVolume
