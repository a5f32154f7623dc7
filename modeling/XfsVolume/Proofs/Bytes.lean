import Mathlib.Algebra.Ring.Nat
import XfsVolume.Bytes

/-!
# Bytes seen one by one

Every byte array of a volume is looked at through `byteAt`, which is total: two arrays of one length
with the same bytes are the same array. The copying operations are described by the bytes of their
result, and the big-endian value of a run of bytes depends on those bytes alone, so that what was
written is read back (`beNat_beBytes`).
-/

namespace XfsVolume

/-! ## Bytes of an array -/

theorem byteAt_of_lt {b : ByteArray} {i : Nat} (h : i < b.size) : byteAt b i = b[i] := by
  rw [byteAt, dif_pos h]

theorem byteAt_of_le {b : ByteArray} {i : Nat} (h : b.size ≤ i) : byteAt b i = 0 := by
  rw [byteAt, dif_neg (Nat.not_lt.mpr h)]

theorem byteAt_eq_getD (b : ByteArray) (i : Nat) : byteAt b i = (byteList b)[i]?.getD 0 := by
  by_cases h : i < b.size
  · have hl : i < (byteList b).length := h
    rw [byteAt_of_lt h, List.getElem?_eq_getElem hl]
    rfl
  · have hl : (byteList b).length ≤ i := Nat.not_lt.mp h
    rw [byteAt_of_le (Nat.not_lt.mp h), List.getElem?_eq_none hl]
    rfl

/-- Two arrays of one length with the same bytes are the same. -/
theorem bytes_ext {a b : ByteArray} (hs : a.size = b.size)
    (h : ∀ i < a.size, byteAt a i = byteAt b i) : a = b := by
  apply ByteArray.ext_getElem hs
  intro i hi hi'
  have hb := h i hi
  rwa [byteAt_of_lt hi, byteAt_of_lt hi'] at hb

@[simp] theorem length_byteList (b : ByteArray) : (byteList b).length = b.size := rfl

@[simp] theorem byteList_toByteArray (l : List UInt8) : byteList l.toByteArray = l := by
  rw [byteList, List.data_toByteArray]

theorem byteAt_toByteArray (l : List UInt8) (i : Nat) :
    byteAt l.toByteArray i = l[i]?.getD 0 := by
  rw [byteAt_eq_getD, byteList_toByteArray]

theorem byteList_append (a b : ByteArray) : byteList (a ++ b) = byteList a ++ byteList b := by
  rw [byteList, ByteArray.data_append, Array.toList_append, byteList, byteList]

theorem byteAt_append (a b : ByteArray) (i : Nat) :
    byteAt (a ++ b) i = if i < a.size then byteAt a i else byteAt b (i - a.size) := by
  rw [byteAt_eq_getD, byteList_append, List.getElem?_append, length_byteList, byteAt_eq_getD a,
    byteAt_eq_getD b]
  by_cases h : i < a.size
  · rw [if_pos h, if_pos h]
  · rw [if_neg h, if_neg h]

/-! ## Filled and copied arrays -/

@[simp] theorem size_filled (n : Nat) (x : UInt8) : (filled n x).size = n :=
  Array.size_replicate

@[simp] theorem size_zeros (n : Nat) : (zeros n).size = n := size_filled n 0

theorem byteAt_filled {n i : Nat} (x : UInt8) (h : i < n) : byteAt (filled n x) i = x := by
  rw [byteAt_of_lt (by rwa [size_filled])]
  exact Array.getElem_replicate _

@[simp] theorem byteAt_zeros (n i : Nat) : byteAt (zeros n) i = 0 := by
  by_cases h : i < n
  · exact byteAt_filled 0 h
  · exact byteAt_of_le (by rw [size_zeros]; omega)

theorem size_window (b : ByteArray) (off len : Nat) :
    (window b off len).size = min (off + len) b.size - off := by
  rw [window, ByteArray.size_extract]

theorem size_window_of_le {b : ByteArray} {off len : Nat} (h : off + len ≤ b.size) :
    (window b off len).size = len := by
  rw [size_window]
  omega

theorem byteAt_window {b : ByteArray} {off len i : Nat} (h : i < len) :
    byteAt (window b off len) i = byteAt b (off + i) := by
  by_cases hb : off + i < b.size
  · have hw : i < (window b off len).size := by rw [size_window]; omega
    rw [byteAt_of_lt hw, byteAt_of_lt hb]
    exact ByteArray.getElem_extract _
  · have hw : (window b off len).size ≤ i := by rw [size_window]; omega
    rw [byteAt_of_le hw, byteAt_of_le (by omega)]

/-- A window of a window. -/
theorem window_window {b : ByteArray} {off len off' len' : Nat} (h : off' + len' ≤ len) :
    window (window b off len) off' len' = window b (off + off') len' := by
  apply bytes_ext
  · simp only [size_window]
    omega
  · intro i hi
    have hl : i < len' := by
      simp only [size_window] at hi
      omega
    rw [byteAt_window hl, byteAt_window (by omega), byteAt_window hl, Nat.add_assoc]

/-- Windows that stand side by side make one window. -/
theorem window_append_window {b : ByteArray} (off len len' : Nat) (h : off + len ≤ b.size) :
    window b off len ++ window b (off + len) len' = window b off (len + len') := by
  have hs : (window b off len).size = len := size_window_of_le h
  apply bytes_ext
  · rw [ByteArray.size_append, hs, size_window, size_window]
    omega
  · intro i hi
    rw [byteAt_append, hs]
    split
    · rename_i hlt
      rw [byteAt_window hlt, byteAt_window (by omega)]
    · rename_i hge
      rw [ByteArray.size_append, hs, size_window] at hi
      rw [byteAt_window (by omega), byteAt_window (by omega)]
      congr 1
      omega

theorem window_self (b : ByteArray) {len : Nat} (h : b.size ≤ len) : window b 0 len = b := by
  apply bytes_ext
  · rw [size_window]
    omega
  · intro i hi
    rw [byteAt_window (by rw [size_window] at hi; omega), Nat.zero_add]

theorem size_overwrite {dst src : ByteArray} {off : Nat} (h : off + src.size ≤ dst.size) :
    (overwrite dst off src).size = dst.size := by
  rw [overwrite, ByteArray.copySlice_eq_append, ByteArray.size_append, ByteArray.size_append,
    ByteArray.size_extract, ByteArray.size_extract, ByteArray.size_extract]
  simp only [ByteArray.size] at h ⊢
  omega

theorem byteAt_overwrite {dst src : ByteArray} {off : Nat} (h : off + src.size ≤ dst.size)
    (i : Nat) :
    byteAt (overwrite dst off src) i =
      if off ≤ i ∧ i < off + src.size then byteAt src (i - off) else byteAt dst i := by
  have hparts : overwrite dst off src =
      window dst 0 off ++ src ++ window dst (off + src.size) (dst.size - (off + src.size)) := by
    have hd : dst.data.size = dst.size := rfl
    have hs : src.data.size = src.size := rfl
    have hall : src.extract 0 src.size = src := ByteArray.extract_zero_size
    rw [overwrite, ByteArray.copySlice_eq_append, window, window, hd, hs, Nat.zero_add, hall,
      Nat.zero_add, Nat.sub_zero, Nat.min_self]
    congr 2
    omega
  have h0 : (window dst 0 off).size = off := size_window_of_le (by omega)
  rw [hparts, byteAt_append, byteAt_append, ByteArray.size_append, h0]
  by_cases hlt : i < off
  · rw [if_pos (by omega), if_pos hlt, if_neg (by omega), byteAt_window hlt, Nat.zero_add]
  · by_cases hin : i < off + src.size
    · rw [if_pos hin, if_neg hlt, if_pos (by omega)]
    · rw [if_neg hin, if_neg (by omega)]
      by_cases hd : i < dst.size
      · rw [byteAt_window (by omega)]
        congr 1
        omega
      · rw [byteAt_of_le (by rw [size_window]; omega), byteAt_of_le (by omega)]

theorem overwrite_whole {dst src : ByteArray} (h : src.size = dst.size) :
    overwrite dst 0 src = src := by
  have hs : 0 + src.size ≤ dst.size := by omega
  apply bytes_ext
  · rw [size_overwrite hs, h]
  · intro i hi
    rw [size_overwrite hs] at hi
    rw [byteAt_overwrite hs, if_pos ⟨Nat.zero_le _, by omega⟩, Nat.sub_zero]

/-- What was written is in the window it was written to. -/
theorem window_overwrite_self {dst src : ByteArray} {off : Nat} (h : off + src.size ≤ dst.size) :
    window (overwrite dst off src) off src.size = src := by
  have hs : (window (overwrite dst off src) off src.size).size = src.size := by
    apply size_window_of_le
    rwa [size_overwrite h]
  apply bytes_ext hs
  intro i hi
  rw [hs] at hi
  rw [byteAt_window hi, byteAt_overwrite h, if_pos ⟨by omega, by omega⟩]
  congr 1
  omega

/-! ## Big-endian values -/

theorem toNat_byteAt (b : ByteArray) (i : Nat) : (byteAt b i).toNat = beNat b i 1 := by
  rw [beNat, beNat, Nat.zero_mul, Nat.zero_add, Nat.add_zero]

theorem byteAt_eq_ofNat (b : ByteArray) (i : Nat) : byteAt b i = UInt8.ofNat (beNat b i 1) := by
  rw [← toNat_byteAt, UInt8.ofNat_toNat]

/-- The value depends on its own bytes only. -/
theorem beNat_congr {a b : ByteArray} {off off' n : Nat}
    (h : ∀ i < n, byteAt a (off + i) = byteAt b (off' + i)) : beNat a off n = beNat b off' n := by
  induction n with
  | zero => rfl
  | succ n ih =>
    rw [beNat, beNat, ih fun i hi => h i (by omega), h n (by omega)]

theorem beNat_window {b : ByteArray} {off len off' n : Nat} (h : off' + n ≤ len) :
    beNat (window b off len) off' n = beNat b (off + off') n := by
  apply beNat_congr
  intro i hi
  rw [byteAt_window (by omega), Nat.add_assoc]

/-- A number that the written bytes do not touch stays as it was. -/
theorem beNat_overwrite_of_apart {dst src : ByteArray} {off off' n : Nat}
    (h : off + src.size ≤ dst.size) (ha : off' + n ≤ off ∨ off + src.size ≤ off') :
    beNat (overwrite dst off src) off' n = beNat dst off' n := by
  apply beNat_congr
  intro i hi
  rw [byteAt_overwrite h, if_neg (by omega)]

@[simp] theorem length_beBytes (n v : Nat) : (beBytes n v).length = n := by
  induction n generalizing v with
  | zero => rfl
  | succ n ih => rw [beBytes, List.length_append, ih, List.length_singleton]

theorem beNat_beBytes (n v : Nat) : beNat (beBytes n v).toByteArray 0 n = v % 256 ^ n := by
  induction n generalizing v with
  | zero => rw [Nat.pow_zero, Nat.mod_one]; rfl
  | succ n ih =>
    have hfront : beNat (beBytes (n + 1) v).toByteArray 0 n =
        beNat (beBytes n (v / 256)).toByteArray 0 n := by
      apply beNat_congr
      intro i hi
      rw [byteAt_toByteArray, byteAt_toByteArray, beBytes,
        List.getElem?_append_left (by rw [length_beBytes]; omega)]
    have hlast : byteAt (beBytes (n + 1) v).toByteArray (0 + n) = UInt8.ofNat v := by
      rw [byteAt_toByteArray, beBytes,
        List.getElem?_append_right (by rw [length_beBytes]; omega), length_beBytes, Nat.zero_add,
        Nat.sub_self]
      rfl
    have hsplit : v % (256 * 256 ^ n) = v % 256 + 256 * (v / 256 % 256 ^ n) := Nat.mod_mul
    have hbyte : (UInt8.ofNat v).toNat = v % 256 := UInt8.toNat_ofNat'
    have hpow : 256 ^ (n + 1) = 256 * 256 ^ n := Nat.pow_succ'
    rw [beNat, hfront, hlast, ih, hbyte, hpow, hsplit]
    omega

theorem beNat_of_bytes {b : ByteArray} {off n v : Nat}
    (h : ∀ i < n, byteAt b (off + i) = (beBytes n v)[i]?.getD 0) : beNat b off n = v % 256 ^ n := by
  rw [← beNat_beBytes]
  apply beNat_congr
  intro i hi
  rw [h i hi, byteAt_toByteArray, Nat.zero_add]

theorem beNat_eq_div (b : ByteArray) (off n k : Nat) :
    beNat b off n = beNat b off (n + k) / 256 ^ k := by
  induction k with
  | zero => rw [Nat.pow_zero, Nat.div_one, Nat.add_zero]
  | succ k ih =>
    have hbyte := UInt8.toNat_lt (byteAt b (off + (n + k)))
    have hstep : beNat b off (n + (k + 1)) / 256 = beNat b off (n + k) := by
      rw [← Nat.add_assoc, beNat]
      omega
    rw [Nat.pow_succ', ← Nat.div_div_eq_div_mul, hstep, ih]

/-! ## Bytes that spell a list -/

/-- The bytes of the list stand in `b` from byte `off` on. -/
def Spells (b : ByteArray) (off : Nat) (l : List UInt8) : Prop :=
  ∀ i x, l[i]? = some x → byteAt b (off + i) = x

section

variable {b : ByteArray} {off : Nat} {l xs ys : List UInt8} {x : UInt8}

theorem spells_cons : Spells b off (x :: xs) ↔ byteAt b off = x ∧ Spells b (off + 1) xs := by
  constructor
  · intro h
    refine ⟨h 0 x rfl, fun i y hi => ?_⟩
    rw [Nat.add_assoc, Nat.add_comm 1]
    exact h (i + 1) y hi
  · rintro ⟨hx, hxs⟩ i y hi
    cases i with
    | zero =>
      cases hi
      exact hx
    | succ i =>
      have hrest := hxs i y hi
      rwa [Nat.add_assoc, Nat.add_comm 1] at hrest

theorem spells_append :
    Spells b off (xs ++ ys) ↔ Spells b off xs ∧ Spells b (off + xs.length) ys := by
  induction xs generalizing off with
  | nil => simp [Spells]
  | cons x xs ih =>
    rw [List.cons_append, spells_cons, spells_cons, ih, List.length_cons, and_assoc,
      Nat.add_assoc off 1, Nat.add_comm 1]

theorem Spells.beNat {n v : Nat} (h : Spells b off (beBytes n v)) :
    beNat b off n = v % 256 ^ n := by
  apply beNat_of_bytes
  intro i hi
  have hlt : i < (beBytes n v).length := by rwa [length_beBytes]
  rw [List.getElem?_eq_getElem hlt]
  exact h i _ (List.getElem?_eq_getElem hlt)

theorem Spells.window (h : Spells b off l) (hl : off + l.length ≤ b.size) :
    byteList (window b off l.length) = l := by
  have heq : XfsVolume.window b off l.length = l.toByteArray := by
    have hsize : (XfsVolume.window b off l.length).size = l.length := size_window_of_le hl
    apply bytes_ext (by rw [hsize, List.size_toByteArray])
    intro i hi
    rw [hsize] at hi
    rw [byteAt_window hi, byteAt_toByteArray, List.getElem?_eq_getElem hi]
    exact h i _ (List.getElem?_eq_getElem hi)
  rw [heq, byteList_toByteArray]

/-- A list is spelled by bytes that are the same as others which spell it. -/
theorem Spells.congr {c : ByteArray} {off' : Nat} (h : Spells b off l)
    (hsame : ∀ i < l.length, byteAt c (off' + i) = byteAt b (off + i)) : Spells c off' l := by
  intro i x hi
  obtain ⟨hlt, -⟩ := List.getElem?_eq_some_iff.mp hi
  rw [hsame i hlt]
  exact h i x hi

/-- What was written over other bytes is spelled where it was written. -/
theorem spells_overwrite {dst : ByteArray} (h : off + l.length ≤ dst.size) :
    Spells (overwrite dst off l.toByteArray) off l := by
  intro i x hi
  obtain ⟨hlt, -⟩ := List.getElem?_eq_some_iff.mp hi
  rw [byteAt_overwrite (by rwa [List.size_toByteArray]), if_pos (by
    rw [List.size_toByteArray]
    omega), Nat.add_sub_cancel_left, byteAt_toByteArray, hi]
  rfl

theorem spells_toByteArray (l : List UInt8) : Spells l.toByteArray 0 l := by
  intro i x hi
  rw [Nat.zero_add, byteAt_toByteArray, hi]
  rfl

end

/-! ## Bounds-checked reads -/

/-- Reads succeed inside an array whose length is a word. -/
theorem need_eq_ok {b : ByteArray} {off len : Nat} (hb : b.size < wordLimit)
    (h : off + len ≤ b.size) : need b off len = .ok () := by
  rw [need, if_neg (by omega), if_neg (by omega)]

theorem le_of_need {b : ByteArray} {off len : Nat} (h : need b off len = .ok ()) :
    off + len ≤ b.size := by
  rw [need] at h
  split at h
  · cases h
  · split at h
    · cases h
    · omega

theorem readU8_eq {b : ByteArray} {off : Nat} (hb : b.size < wordLimit) (h : off + 1 ≤ b.size) :
    readU8 b off = .ok (byteAt b off) := by
  rw [readU8, need_eq_ok hb h]
  rfl

theorem readU8_eq_ofNat {b : ByteArray} {off : Nat} (hb : b.size < wordLimit)
    (h : off + 1 ≤ b.size) : readU8 b off = .ok (UInt8.ofNat (beNat b off 1)) := by
  rw [readU8_eq hb h, byteAt_eq_ofNat]

theorem readU16_eq {b : ByteArray} {off : Nat} (hb : b.size < wordLimit) (h : off + 2 ≤ b.size) :
    readU16 b off = .ok (UInt16.ofNat (beNat b off 2)) := by
  rw [readU16, need_eq_ok hb h]
  rfl

theorem readU32_eq {b : ByteArray} {off : Nat} (hb : b.size < wordLimit) (h : off + 4 ≤ b.size) :
    readU32 b off = .ok (UInt32.ofNat (beNat b off 4)) := by
  rw [readU32, need_eq_ok hb h]
  rfl

theorem readU64_eq {b : ByteArray} {off : Nat} (hb : b.size < wordLimit) (h : off + 8 ≤ b.size) :
    readU64 b off = .ok (UInt64.ofNat (beNat b off 8)) := by
  rw [readU64, need_eq_ok hb h]
  rfl

theorem readU8_of_beNat {b : ByteArray} {off v : Nat} (hb : b.size < wordLimit)
    (h : off + 1 ≤ b.size) (hv : beNat b off 1 = v % 256 ^ 1) :
    readU8 b off = .ok (UInt8.ofNat v) := by
  rw [readU8_eq_ofNat hb h, hv]
  exact congrArg Except.ok (UInt8.ofNat_mod_size ..)

theorem readU16_of_beNat {b : ByteArray} {off v : Nat} (hb : b.size < wordLimit)
    (h : off + 2 ≤ b.size) (hv : beNat b off 2 = v % 256 ^ 2) :
    readU16 b off = .ok (UInt16.ofNat v) := by
  rw [readU16_eq hb h, hv]
  exact congrArg Except.ok (UInt16.ofNat_mod_size ..)

theorem readU32_of_beNat {b : ByteArray} {off v : Nat} (hb : b.size < wordLimit)
    (h : off + 4 ≤ b.size) (hv : beNat b off 4 = v % 256 ^ 4) :
    readU32 b off = .ok (UInt32.ofNat v) := by
  rw [readU32_eq hb h, hv]
  exact congrArg Except.ok (UInt32.ofNat_mod_size ..)

theorem readU64_of_beNat {b : ByteArray} {off v : Nat} (hb : b.size < wordLimit)
    (h : off + 8 ≤ b.size) (hv : beNat b off 8 = v % 256 ^ 8) :
    readU64 b off = .ok (UInt64.ofNat v) := by
  rw [readU64_eq hb h, hv]
  exact congrArg Except.ok (UInt64.ofNat_mod_size ..)

theorem readBytes_eq {b : ByteArray} {off len : Nat} (hb : b.size < wordLimit)
    (h : off + len ≤ b.size) : readBytes b off len = .ok (window b off len) := by
  rw [readBytes, need_eq_ok hb h]
  rfl

/-- Bytes that were read lie inside the array. -/
theorem window_of_readBytes {b w : ByteArray} {off len : Nat} (h : readBytes b off len = .ok w) :
    off + len ≤ b.size ∧ w = window b off len := by
  rw [readBytes] at h
  cases hneed : need b off len with
  | error e =>
    rw [hneed] at h
    cases h
  | ok u =>
    rw [hneed] at h
    cases h
    exact ⟨le_of_need hneed, rfl⟩

/-! ## Powers of two -/

theorem le_two_pow_ceilLog2 (n : Nat) : n ≤ 2 ^ ceilLog2 n := by
  rw [ceilLog2]
  split
  · omega
  · have := Nat.lt_log2_self (n := n - 1)
    omega

theorem two_pow_ceilLog2_lt {n : Nat} (h : 0 < n) : 2 ^ ceilLog2 n < 2 * n := by
  rw [ceilLog2]
  split
  · omega
  · have := Nat.log2_self_le (n := n - 1) (by omega)
    rw [Nat.pow_succ]
    omega

theorem ceilLog2_le {n k : Nat} (h : n ≤ 2 ^ k) : ceilLog2 n ≤ k := by
  rw [ceilLog2]
  split
  · exact Nat.zero_le k
  · exact (Nat.log2_lt (by omega)).mpr (by omega)

end XfsVolume
