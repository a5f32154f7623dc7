import Mathlib.Algebra.Ring.Nat
import XfsVolume.Image.Fault

/-!
# Numbers put together from parts

Block addresses, inode numbers, cursors and byte offsets are put together in one way: a high part in
units of some base, and a low part below the base. Dividing by the base gives the parts back. What
is stored is checked to fit the bits that it has.
-/

namespace XfsVolume

theorem digits_eq (high : Nat) {low base : Nat} (h : low < base) :
    (high * base + low) / base = high ∧ (high * base + low) % base = low := by
  have hpos : 0 < base := Nat.zero_lt_of_lt h
  constructor
  · rw [Nat.mul_comm, Nat.mul_add_div hpos, Nat.div_eq_of_lt h, Nat.add_zero]
  · rw [Nat.mul_comm, Nat.mul_add_mod, Nat.mod_eq_of_lt h]

/-- Units before a count of them end before it does. -/
theorem unit_stop_le {high count : Nat} (base : Nat) (h : high < count) :
    high * base + base ≤ count * base := by
  rw [← Nat.succ_mul]
  exact Nat.mul_le_mul_right base h

theorem digits_lt {high count low base : Nat} (hhigh : high < count) (hlow : low < base) :
    high * base + low < count * base :=
  Nat.lt_of_lt_of_le (Nat.add_lt_add_left hlow _) (unit_stop_le base hhigh)

/-- Dividing where the base is a power of two and the parts are shifted to their places. -/
theorem shift_digits_eq (high : Nat) {low k : Nat} (h : low < 2 ^ k) :
    (high <<< k + low) >>> k = high ∧ (high <<< k + low) % (1 <<< k) = low := by
  rw [Nat.shiftLeft_eq, Nat.shiftRight_eq_div_pow, Nat.one_shiftLeft]
  exact digits_eq high h

/-- Setting the bits of the low part adds it. -/
theorem shiftLeft_or_eq {high low k : Nat} (h : low < 2 ^ k) :
    high <<< k ||| low = high * 2 ^ k + low := by
  rw [← Nat.shiftLeft_add_eq_or_of_lt h, Nat.shiftLeft_eq]

/-- A number fits if it is below the power of two with as many bits. -/
theorem fitting_eq_ok {bits n v : Nat} : fitting bits n = .ok v ↔ n < 2 ^ bits ∧ v = n := by
  rw [fitting, Nat.one_shiftLeft]
  split
  · rename_i hlt
    simp [hlt, eq_comm]
  · rename_i hge
    simp [hge]

end XfsVolume
