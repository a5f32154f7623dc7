import XfsVolume.Partition

/-!
# Searching by halving

The place to which halving leads is the first one or satisfies the condition, whatever the list.
Where the condition holds of a front of the list and of nothing behind it, the place is the last one
of that front, so that searching by halving and searching from the front give the same.
-/

namespace XfsVolume

section Places

variable {below : Nat → Bool} {base size : Nat}

theorem halve_bounds (below : Nat → Bool) (base : Nat) {size : Nat} (h : 0 < size) :
    base ≤ halve below base size ∧ halve below base size < base + size := by
  fun_induction halve below base size with
  | case1 base size hsmall => omega
  | case2 base size hlarge half hmid ih =>
    obtain ⟨hlow, hhigh⟩ := ih (by omega)
    omega
  | case3 base size hlarge half hmid ih =>
    obtain ⟨hlow, hhigh⟩ := ih (by omega)
    omega

theorem halve_eq_or (below : Nat → Bool) (base size : Nat) :
    halve below base size = base ∨ below (halve below base size) = true := by
  fun_induction halve below base size with
  | case1 base size hsmall => exact Or.inl rfl
  | case2 base size hlarge half hmid ih =>
    refine Or.inr (ih.elim (fun heq => ?_) id)
    rwa [heq]
  | case3 base size hlarge half hmid ih => exact ih

theorem below_eq_false_of_halve_lt {i : Nat} (hlow : halve below base size < i)
    (hhigh : i < base + size)
    (hfront : ∀ {i j}, i ≤ j → j < base + size → below j = true → below i = true) :
    below i = false := by
  fun_induction halve below base size with
  | case1 base size hsmall => omega
  | case2 base size hlarge half hmid ih =>
    exact ih hlow (by omega) fun hle hlt => hfront hle (by omega)
  | case3 base size hlarge half hmid ih =>
    by_cases hi : i < base + (size - half)
    · exact ih hlow hi fun hle hlt => hfront hle (by omega)
    · exact Bool.eq_false_iff.mpr fun hin => hmid (hfront (by omega) hhigh hin)

end Places

variable {α : Type} {p : α → Bool} {l : List α}

theorem partitionPoint_le_length (p : α → Bool) (l : List α) : partitionPoint p l ≤ l.length := by
  rw [partitionPoint]
  rcases Nat.eq_zero_or_pos l.length with hempty | hpos
  · rw [List.eq_nil_of_length_eq_zero hempty]
    simp [halve]
  · obtain ⟨-, hlt⟩ := halve_bounds (fun i => (l[i]?).any p) 0 hpos
    split <;> omega

theorem partitionPoint_eq_zero_or (p : α → Bool) (l : List α) :
    partitionPoint p l = 0 ∨ ∃ a, l[partitionPoint p l - 1]? = some a ∧ p a = true := by
  have hlast := halve_eq_or (fun i => (l[i]?).any p) 0 l.length
  rw [partitionPoint]
  generalize halve (fun i => (l[i]?).any p) 0 l.length = last at hlast ⊢
  split
  · rename_i hbelow
    exact Or.inr ((Option.any_eq_true _ _).mp hbelow)
  · rename_i hnot
    exact Or.inl (hlast.resolve_right hnot)

theorem any_partitionPoint (h : l.Pairwise fun a b => p b = true → p a = true) :
    (l[partitionPoint p l]?).any p = false := by
  have hfront : ∀ {i j}, i ≤ j → j < 0 + l.length → (l[j]?).any p = true →
      (l[i]?).any p = true := by
    intro i j hle hlt hj
    rw [List.getElem?_eq_getElem (by omega), Option.any_some] at hj ⊢
    rcases Nat.eq_or_lt_of_le hle with rfl | hlt'
    · exact hj
    · exact List.pairwise_iff_getElem.mp h i j (by omega) (by omega) hlt' hj
  have hbehind : ∀ {i}, halve (fun i => (l[i]?).any p) 0 l.length < i → (l[i]?).any p = false := by
    intro i hi
    by_cases hlt : i < 0 + l.length
    · exact below_eq_false_of_halve_lt hi hlt hfront
    · rw [List.getElem?_eq_none (by omega), Option.any_none]
  rw [partitionPoint]
  split
  · exact hbehind (Nat.lt_succ_self _)
  · rename_i hnot
    exact Bool.eq_false_iff.mpr hnot

/-- In a list that is divided, what is behind the place is what is left when the front is dropped
element by element. -/
theorem drop_partitionPoint (h : l.Pairwise fun a b => p b = true → p a = true) :
    l.drop (partitionPoint p l) = l.dropWhile p := by
  have hbefore : ∀ a ∈ l.take (partitionPoint p l), p a = true := by
    intro a ha
    rcases partitionPoint_eq_zero_or p l with hzero | ⟨last, hlast, hp⟩
    · rw [hzero] at ha
      cases ha
    · obtain ⟨i, hi, rfl⟩ := List.mem_take_iff_getElem.mp ha
      obtain ⟨hlt, rfl⟩ := List.getElem?_eq_some_iff.mp hlast
      rcases Nat.eq_or_lt_of_le (show i ≤ partitionPoint p l - 1 by omega) with rfl | hlt'
      · exact hp
      · exact List.pairwise_iff_getElem.mp h i _ (by omega) hlt hlt' hp
  have hbehind : (l.drop (partitionPoint p l)).dropWhile p = l.drop (partitionPoint p l) := by
    have hat := any_partitionPoint h
    rw [← List.head?_drop] at hat
    cases hrest : l.drop (partitionPoint p l) with
    | nil => rfl
    | cons a rest =>
      rw [hrest, List.head?_cons, Option.any_some] at hat
      exact List.dropWhile_cons_of_neg (by rw [hat]; decide)
  calc l.drop (partitionPoint p l)
      = (l.take (partitionPoint p l) ++ l.drop (partitionPoint p l)).dropWhile p := by
        rw [List.dropWhile_append_of_pos hbefore, hbehind]
    _ = l.dropWhile p := by rw [List.take_append_drop]

end XfsVolume
