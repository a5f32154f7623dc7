import XfsVolume.Directory.NameHash

/-!
# The name hash, byte by byte

The hash takes four bytes at a time. Rotations add up and go through exclusive or, and a byte that
is rotated by at most 24 bits is shifted: no bit of it comes round. So one step for four bytes is
four steps for one byte each, and the steps for up to three bytes left over are as many. All of a
step goes through exclusive or, and so does the hash of names of one length (`nameHash_bytewise`).
This is why names can be made that collide: they differ by bytes that are mixed to zero
(`collidingNames_collide`).
-/

namespace XfsVolume

/-! ## Rotations of words of bits -/

theorem getLsbD_rotateLeft (x : BitVec 32) {k i : Nat} (hk : k < 32) (hi : i < 32) :
    (x.rotateLeft k).getLsbD i = x.getLsbD ((i + (32 - k)) % 32) := by
  rw [BitVec.getLsbD_rotateLeft, Nat.mod_eq_of_lt hk]
  by_cases hlow : i < k
  · rw [decide_eq_true hlow, cond_true, Nat.mod_eq_of_lt (by omega), Nat.add_comm]
  · have hplace : (i + (32 - k)) % 32 = i - k := by omega
    rw [decide_eq_false hlow, cond_false, decide_eq_true hi, Bool.true_and, hplace]

/-! ## Rotations of the hash -/

variable {j k l : UInt32}

theorem toBitVec_rotateLeft (h : UInt32) (hpos : 0 < k.toNat) (hk : k.toNat < 32) :
    (rotateLeft h k).toBitVec = h.toBitVec.rotateLeft k.toNat := by
  have hback : (32 - k).toNat = 32 - k.toNat :=
    UInt32.toNat_sub_of_le _ _ (UInt32.le_iff_toNat_le.mpr (Nat.le_of_lt hk))
  apply BitVec.eq_of_toNat_eq
  rw [rotateLeft, UInt32.toNat_toBitVec, UInt32.toNat_or, UInt32.toNat_shiftLeft,
    UInt32.toNat_shiftRight, hback, Nat.mod_eq_of_lt hk,
    Nat.mod_eq_of_lt (show 32 - k.toNat < 32 by omega), BitVec.rotateLeft, Nat.mod_eq_of_lt hk,
    BitVec.rotateLeftAux, BitVec.toNat_or, BitVec.toNat_shiftLeft, BitVec.toNat_ushiftRight]
  rfl

theorem rotateLeft_rotateLeft (h : UInt32) (hj : 0 < j.toNat) (hk : 0 < k.toNat)
    (hsum : l.toNat = j.toNat + k.toNat) (hl : l.toNat < 32) :
    rotateLeft (rotateLeft h j) k = rotateLeft h l := by
  rw [← UInt32.toBitVec_inj, toBitVec_rotateLeft _ hk (by omega),
    toBitVec_rotateLeft _ hj (by omega), toBitVec_rotateLeft _ (by omega) hl]
  apply BitVec.eq_of_getLsbD_eq
  intro i hi
  have hplace : ((i + (32 - k.toNat)) % 32 + (32 - j.toNat)) % 32 = (i + (32 - l.toNat)) % 32 := by
    omega
  rw [getLsbD_rotateLeft _ (by omega) hi,
    getLsbD_rotateLeft _ (by omega) (Nat.mod_lt _ (by decide)), getLsbD_rotateLeft _ hl hi, hplace]

theorem rotateLeft_xor (g h : UInt32) (hpos : 0 < k.toNat) (hk : k.toNat < 32) :
    rotateLeft (g ^^^ h) k = rotateLeft g k ^^^ rotateLeft h k := by
  rw [← UInt32.toBitVec_inj, UInt32.toBitVec_xor, toBitVec_rotateLeft _ hpos hk,
    toBitVec_rotateLeft _ hpos hk, toBitVec_rotateLeft _ hpos hk, UInt32.toBitVec_xor]
  apply BitVec.eq_of_getLsbD_eq
  intro i hi
  rw [BitVec.getLsbD_xor, getLsbD_rotateLeft _ hk hi, getLsbD_rotateLeft _ hk hi,
    getLsbD_rotateLeft _ hk hi, BitVec.getLsbD_xor]

theorem rotateLeft_byte (a : UInt8) (hpos : 0 < k.toNat) (hk : k.toNat ≤ 24) :
    rotateLeft a.toUInt32 k = a.toUInt32 <<< k := by
  have hback : (32 - k).toNat = 32 - k.toNat :=
    UInt32.toNat_sub_of_le _ _ (UInt32.le_iff_toNat_le.mpr (by show k.toNat ≤ 32; omega))
  have hbyte : a.toUInt32.toNat < 2 ^ (32 - k.toNat) := by
    have hpow : 2 ^ 8 ≤ 2 ^ (32 - k.toNat) := Nat.pow_le_pow_right (by decide) (by omega)
    exact Nat.lt_of_lt_of_le a.toNat_lt hpow
  have hnone : a.toUInt32 >>> (32 - k) = 0 := by
    rw [← UInt32.toNat_inj, UInt32.toNat_shiftRight, hback,
      Nat.mod_eq_of_lt (show 32 - k.toNat < 32 by omega), Nat.shiftRight_eq_div_pow]
    exact Nat.div_eq_of_lt hbyte
  rw [rotateLeft, hnone, UInt32.or_zero]

/-! ## Steps for one byte -/

def mixByte (h : UInt32) (byte : UInt8) : UInt32 := rotateLeft h 7 ^^^ byte.toUInt32

theorem mixByte_xor (g h : UInt32) (a b : UInt8) :
    mixByte (g ^^^ h) (a ^^^ b) = mixByte g a ^^^ mixByte h b := by
  rw [mixByte, rotateLeft_xor g h (by decide) (by decide), UInt8.toUInt32_xor, mixByte, mixByte]
  ac_rfl

theorem mixByte_two (h : UInt32) (a b : UInt8) : mixByte (mixByte h a) b =
    rotateLeft a.toUInt32 7 ^^^ b.toUInt32 ^^^ rotateLeft h 14 := by
  rw [mixByte, mixByte, rotateLeft_xor _ _ (by decide) (by decide),
    rotateLeft_rotateLeft h (l := 14) (by decide) (by decide) rfl (by decide)]
  ac_rfl

theorem mixByte_three (h : UInt32) (a b c : UInt8) : mixByte (mixByte (mixByte h a) b) c =
    rotateLeft a.toUInt32 14 ^^^ rotateLeft b.toUInt32 7 ^^^ c.toUInt32 ^^^ rotateLeft h 21 := by
  rw [mixByte, mixByte_two, rotateLeft_xor _ _ (by decide) (by decide),
    rotateLeft_xor _ _ (by decide) (by decide),
    rotateLeft_rotateLeft h (l := 21) (by decide) (by decide) rfl (by decide),
    rotateLeft_rotateLeft a.toUInt32 (l := 14) (by decide) (by decide) rfl (by decide)]
  ac_rfl

theorem mixByte_four (h : UInt32) (a b c d : UInt8) :
    mixByte (mixByte (mixByte (mixByte h a) b) c) d =
      rotateLeft a.toUInt32 21 ^^^ rotateLeft b.toUInt32 14 ^^^ rotateLeft c.toUInt32 7 ^^^
        d.toUInt32 ^^^ rotateLeft h 28 := by
  rw [mixByte, mixByte_three, rotateLeft_xor _ _ (by decide) (by decide),
    rotateLeft_xor _ _ (by decide) (by decide), rotateLeft_xor _ _ (by decide) (by decide),
    rotateLeft_rotateLeft h (l := 28) (by decide) (by decide) rfl (by decide),
    rotateLeft_rotateLeft a.toUInt32 (l := 21) (by decide) (by decide) rfl (by decide),
    rotateLeft_rotateLeft b.toUInt32 (l := 14) (by decide) (by decide) rfl (by decide)]
  ac_rfl

/-! ## Whole names -/

theorem nameHashFrom_eq_foldl (h : UInt32) (name : Name) :
    nameHashFrom h name = name.foldl mixByte h := by
  fun_induction nameHashFrom h name with
  | case1 h a b c d rest ih =>
    rw [ih, List.foldl_cons, List.foldl_cons, List.foldl_cons, List.foldl_cons, mixByte_four,
      rotateLeft_byte a (by decide) (by decide), rotateLeft_byte b (by decide) (by decide),
      rotateLeft_byte c (by decide) (by decide)]
  | case2 h a b c =>
    rw [List.foldl_cons, List.foldl_cons, List.foldl_cons, List.foldl_nil, mixByte_three,
      rotateLeft_byte a (by decide) (by decide), rotateLeft_byte b (by decide) (by decide)]
  | case3 h a b =>
    rw [List.foldl_cons, List.foldl_cons, List.foldl_nil, mixByte_two,
      rotateLeft_byte a (by decide) (by decide)]
  | case4 h a => rw [List.foldl_cons, List.foldl_nil, mixByte, UInt32.xor_comm]
  | case5 h => rfl

theorem foldl_mixByte_xor : ∀ {x y : Name} (g h : UInt32), x.length = y.length →
    (List.zipWith (· ^^^ ·) x y).foldl mixByte (g ^^^ h) = x.foldl mixByte g ^^^ y.foldl mixByte h
  | [], [], _, _, _ => rfl
  | a :: x, b :: y, g, h, hlength => by
      rw [List.zipWith_cons_cons, List.foldl_cons, mixByte_xor,
        foldl_mixByte_xor _ _ (Nat.succ.inj hlength), List.foldl_cons, List.foldl_cons]

/-- **The name hash, byte by byte.** The hash of a name rotates by seven bits and mixes in a byte,
for one byte after the other; and the hash of the bytewise exclusive or of two names of one length
is that of their hashes. -/
theorem nameHash_bytewise :
    (∀ name : Name,
      nameHash name = name.foldl (fun h byte => rotateLeft h 7 ^^^ byte.toUInt32) 0) ∧
    ∀ x y : Name, x.length = y.length →
      nameHash (List.zipWith (· ^^^ ·) x y) = nameHash x ^^^ nameHash y := by
  refine ⟨nameHashFrom_eq_foldl 0, fun x y hlength => ?_⟩
  rw [nameHash, nameHash, nameHash, nameHashFrom_eq_foldl, nameHashFrom_eq_foldl,
    nameHashFrom_eq_foldl, ← foldl_mixByte_xor 0 0 hlength]
  rfl

/-- Two names of seven bytes, each hashed in a step for four bytes and one for three. -/
theorem nameHash_bytewise_seven : ∃ x y : Name, x.length = 7 ∧ y.length = 7 ∧
    nameHash x = 0xf5dca70a ∧ nameHash y = 0x25daf971 ∧
    nameHash (List.zipWith (· ^^^ ·) x y) = 0xf5dca70a ^^^ 0x25daf971 := by
  obtain ⟨x, hx⟩ : ∃ x : Name, x = [0x66, 0x6f, 0x6f, 0x2e, 0x74, 0x78, 0x74] := ⟨_, rfl⟩
  obtain ⟨y, hy⟩ : ∃ y : Name, y = [0x62, 0x61, 0x72, 0x2e, 0x6d, 0x64, 0x7e] := ⟨_, rfl⟩
  have hxHash : nameHash x = 0xf5dca70a := by rw [hx]; decide
  have hyHash : nameHash y = 0x25daf971 := by rw [hy]; decide
  refine ⟨x, y, by rw [hx]; rfl, by rw [hy]; rfl, hxHash, hyHash, ?_⟩
  rw [nameHash_bytewise.2 x y (by rw [hx, hy]; rfl), hxHash, hyHash]

/-! ## Colliding names -/

/-- The four bytes that every group of a colliding name stands for. -/
def plainGroup : Name := [0x61, 0x62, 0x63, 0x64]

/-- What a mask changes in a group. -/
def groupChange (mask : Nat) : Name := List.zipWith (· ^^^ ·) plainGroup (collidingGroup mask)

theorem foldl_mixByte_collidingGroup (h : UInt32) {mask : Nat} (hmask : mask < 8) :
    (collidingGroup mask).foldl mixByte h = plainGroup.foldl mixByte h := by
  have hchange : ∀ mask < 8, plainGroup.length = (groupChange mask).length ∧
      collidingGroup mask = List.zipWith (· ^^^ ·) plainGroup (groupChange mask) ∧
      (groupChange mask).foldl mixByte 0 = 0 := by decide +kernel
  obtain ⟨hlength, hgroup, hzero⟩ := hchange mask hmask
  have hmix := foldl_mixByte_xor h 0 hlength
  rwa [← hgroup, hzero, UInt32.xor_zero, UInt32.xor_zero] at hmix

theorem collidingNames_collide (count : Nat) :
    (collidingNames count).length = min count 64 ∧ (collidingNames count).Nodup ∧
      ∀ name ∈ collidingNames count,
        name.length = 8 ∧ nameHash name = nameHash (plainGroup ++ plainGroup) := by
  have hall : (collidingNames 64).Nodup := by decide +kernel
  have hfew : (collidingNames count).Sublist (collidingNames 64) :=
    (List.range_sublist.mpr (Nat.min_le_right _ _)).map _
  refine ⟨by rw [collidingNames, List.length_map, List.length_range], hall.sublist hfew,
    fun name hname => ?_⟩
  obtain ⟨m, hm, rfl⟩ := List.mem_map.mp hname
  have hm : m < 64 := Nat.lt_of_lt_of_le (List.mem_range.mp hm) (Nat.min_le_right _ _)
  refine ⟨rfl, ?_⟩
  rw [nameHash, nameHash, nameHashFrom_eq_foldl, nameHashFrom_eq_foldl, List.foldl_append,
    List.foldl_append, foldl_mixByte_collidingGroup _ (Nat.mod_lt _ (by decide)),
    foldl_mixByte_collidingGroup _ (Nat.div_lt_of_lt_mul hm)]

end XfsVolume
