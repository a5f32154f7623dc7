/-!
# The place where a list changes

A list whose front satisfies a condition and whose rest does not is searched by halving for the
place where the two meet. The answer is defined for every list: on one that is not divided so, it
depends on the elements that are looked at.
-/

namespace XfsVolume

/-- Halves the `size` places from `base` on until one is left: the upper part is kept if its first
place satisfies `below`, and the lower part if not. -/
def halve (below : Nat → Bool) (base size : Nat) : Nat :=
  if size ≤ 1 then base
  else
    let half := size / 2
    if below (base + half) then halve below (base + half) (size - half)
    else halve below base (size - half)
termination_by size

/-- Number of elements before the place where `p` stops holding, found by halving. -/
def partitionPoint {α : Type} (p : α → Bool) (l : List α) : Nat :=
  let below := fun i => (l[i]?).any p
  let last := halve below 0 l.length
  if below last then last + 1 else last

/-- Of a list that is not divided, the place behind any element that satisfies the condition may be
the one that is found. -/
example : partitionPoint (· < 2) [3, 1, 2] = 2 := by decide +kernel

end XfsVolume
