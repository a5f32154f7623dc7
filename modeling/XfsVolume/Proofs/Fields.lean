import Mathlib.Data.List.Forall2
import Mathlib.Data.List.Perm.Basic
import XfsVolume.Fields
import XfsVolume.Proofs.Bytes

/-!
# Reading back what was laid out

Fields that do not touch each other are all read back from the block they were written to, and a
byte outside all of them is what it was before. Runs of fields are read back one by one, and a list
cut into chunks is its chunks put together again.
-/

namespace XfsVolume

namespace Field

def stop (f : Field) : Nat := f.offset + f.width

def Apart (f g : Field) : Prop := f.stop ≤ g.offset ∨ g.stop ≤ f.offset

instance (f g : Field) : Decidable (f.Apart g) := inferInstanceAs (Decidable (_ ∨ _))

end Field

/-! ## One number -/

theorem size_putBE {b : ByteArray} {off n v : Nat} (h : off + n ≤ b.size) :
    (putBE b off n v).size = b.size := by
  rw [putBE]
  apply size_overwrite
  rw [List.size_toByteArray, length_beBytes]
  exact h

theorem byteAt_putBE {b : ByteArray} {off n v : Nat} (h : off + n ≤ b.size) (i : Nat) :
    byteAt (putBE b off n v) i =
      if off ≤ i ∧ i < off + n then (beBytes n v)[i - off]?.getD 0 else byteAt b i := by
  have hs : (beBytes n v).toByteArray.size = n := by rw [List.size_toByteArray, length_beBytes]
  rw [putBE, byteAt_overwrite (by rw [hs]; exact h), hs, byteAt_toByteArray]

theorem beNat_putBE {b : ByteArray} {off n v : Nat} (h : off + n ≤ b.size) :
    beNat (putBE b off n v) off n = v % 256 ^ n := by
  apply beNat_of_bytes
  intro i hi
  rw [byteAt_putBE h, if_pos ⟨by omega, by omega⟩, Nat.add_sub_cancel_left]

/-! ## Fields of a block -/

@[simp] theorem writeFields_nil (b : ByteArray) : writeFields b [] = b := rfl

@[simp] theorem writeFields_cons (b : ByteArray) (f : Field) (fs : List Field) :
    writeFields b (f :: fs) = writeFields (putBE b f.offset f.width f.value) fs := rfl

theorem size_writeFields : ∀ {fs : List Field} {b : ByteArray}, (∀ f ∈ fs, f.stop ≤ b.size) →
    (writeFields b fs).size = b.size
  | [], _, _ => rfl
  | f :: fs, b, h => by
      have hf := size_putBE (v := f.value) (h f List.mem_cons_self)
      rw [writeFields_cons, size_writeFields, hf]
      intro g hg
      rw [hf]
      exact h g (List.mem_cons_of_mem _ hg)

/-- A byte outside every field stays as it was. -/
theorem byteAt_writeFields_of_outside {i : Nat} : ∀ {fs : List Field} {b : ByteArray},
    (∀ f ∈ fs, f.stop ≤ b.size) → (∀ f ∈ fs, i < f.offset ∨ f.stop ≤ i) →
      byteAt (writeFields b fs) i = byteAt b i
  | [], _, _, _ => rfl
  | f :: fs, b, h, ho => by
      have hf := h f List.mem_cons_self
      have hi := ho f List.mem_cons_self
      rw [writeFields_cons, byteAt_writeFields_of_outside _ fun g hg =>
        ho g (List.mem_cons_of_mem _ hg), byteAt_putBE hf, if_neg]
      · rw [Field.stop] at hi
        omega
      · intro g hg
        rw [size_putBE hf]
        exact h g (List.mem_cons_of_mem _ hg)

theorem beNat_writeFields_of_apart {fs : List Field} {b : ByteArray} {off n : Nat}
    (h : ∀ f ∈ fs, f.stop ≤ b.size) (ho : ∀ f ∈ fs, off + n ≤ f.offset ∨ f.stop ≤ off) :
    beNat (writeFields b fs) off n = beNat b off n := by
  apply beNat_congr
  intro i hi
  apply byteAt_writeFields_of_outside h
  intro f hf
  have := ho f hf
  omega

theorem beNat_writeFields : ∀ {fs : List Field} {b : ByteArray}, (∀ f ∈ fs, f.stop ≤ b.size) →
    fs.Pairwise Field.Apart → ∀ f ∈ fs,
      beNat (writeFields b fs) f.offset f.width = f.value % 256 ^ f.width
  | [], _, _, _, f, hf => by cases hf
  | g :: fs, b, h, hp, f, hf => by
      have hg := h g List.mem_cons_self
      obtain ⟨hhead, htail⟩ := List.pairwise_cons.mp hp
      have hrest : ∀ f ∈ fs, f.stop ≤ (putBE b g.offset g.width g.value).size := by
        intro f hf
        rw [size_putBE hg]
        exact h f (List.mem_cons_of_mem _ hf)
      rw [writeFields_cons]
      rcases List.mem_cons.mp hf with rfl | hf
      · rw [beNat_writeFields_of_apart hrest fun k hk => hhead k hk, beNat_putBE hg]
      · exact beNat_writeFields hrest htail f hf

theorem size_blockOf {size : Nat} {fs : List Field} (h : ∀ f ∈ fs, f.stop ≤ size) :
    (blockOf size fs).size = size := by
  rw [blockOf, size_writeFields, size_zeros]
  intro f hf
  rw [size_zeros]
  exact h f hf

theorem beNat_blockOf {size : Nat} {fs : List Field} (h : ∀ f ∈ fs, f.stop ≤ size)
    (hp : fs.Pairwise Field.Apart) {f : Field} (hf : f ∈ fs) :
    beNat (blockOf size fs) f.offset f.width = f.value % 256 ^ f.width := by
  apply beNat_writeFields _ hp f hf
  intro g hg
  rw [size_zeros]
  exact h g hg

theorem beNat_zeros (size off n : Nat) : beNat (zeros size) off n = 0 := by
  induction n with
  | zero => rfl
  | succ n ih => rw [beNat, ih, byteAt_zeros, Nat.zero_mul, Nat.zero_add, UInt8.toNat_zero]

/-- A number that no field of the block touches is zero. -/
theorem beNat_blockOf_of_apart {size off n : Nat} {fs : List Field} (h : ∀ f ∈ fs, f.stop ≤ size)
    (ho : ∀ f ∈ fs, off + n ≤ f.offset ∨ f.stop ≤ off) : beNat (blockOf size fs) off n = 0 := by
  rw [blockOf, beNat_writeFields_of_apart _ ho, beNat_zeros]
  intro f hf
  rw [size_zeros]
  exact h f hf

/-! ## Runs of fields -/

theorem mem_fieldRun {width : Nat} : ∀ {vs : List Nat} {offset : Nat} {f : Field},
    f ∈ fieldRun offset width vs ↔
      ∃ k v, vs[k]? = some v ∧ f = ⟨offset + k * width, width, v⟩
  | [], offset, f => by simp [fieldRun]
  | v :: vs, offset, f => by
      rw [fieldRun, List.mem_cons, mem_fieldRun]
      constructor
      · rintro (rfl | ⟨k, w, hk, rfl⟩)
        · exact ⟨0, v, rfl, by rw [Nat.zero_mul, Nat.add_zero]⟩
        · exact ⟨k + 1, w, hk, by rw [Nat.add_mul, Nat.one_mul, Nat.add_assoc, Nat.add_comm width]⟩
      · rintro ⟨k, w, hk, rfl⟩
        cases k with
        | zero =>
          cases hk
          exact Or.inl (by rw [Nat.zero_mul, Nat.add_zero])
        | succ k =>
          exact Or.inr ⟨k, w, hk, by rw [Nat.add_mul, Nat.one_mul, Nat.add_assoc, Nat.add_comm width]⟩

/-! ## Fields in sequence -/

/-- Fields one behind the other, the first at or after `start` and the last ending by `stop`. -/
def Field.Laid : (start stop : Nat) → List Field → Prop
  | start, stop, [] => start ≤ stop
  | start, stop, f :: fs => start ≤ f.offset ∧ Field.Laid f.stop stop fs

namespace Field

variable {fs gs : List Field} {start stop : Nat}

theorem Laid.le : ∀ {fs : List Field} {start : Nat}, Laid start stop fs → start ≤ stop
  | [], _, h => h
  | f :: fs, start, h => by
      have hrest := Laid.le h.2
      have hfirst := h.1
      rw [Field.stop] at hrest
      omega

theorem Laid.bounds : ∀ {fs : List Field} {start : Nat}, Laid start stop fs →
    ∀ f ∈ fs, start ≤ f.offset ∧ f.stop ≤ stop
  | g :: fs, start, h, f, hf => by
      rcases List.mem_cons.mp hf with rfl | hf
      · exact ⟨h.1, h.2.le⟩
      · have hrest := Laid.bounds h.2 f hf
        have hfirst := h.1
        rw [Field.stop] at hrest
        exact ⟨by omega, hrest.2⟩

theorem Laid.pairwise : ∀ {fs : List Field} {start : Nat}, Laid start stop fs →
    fs.Pairwise Apart
  | [], _, _ => List.Pairwise.nil
  | _ :: _, _, h =>
      List.pairwise_cons.mpr ⟨fun g hg => Or.inl (Laid.bounds h.2 g hg).1, Laid.pairwise h.2⟩

theorem Laid.append {mid : Nat} : ∀ {fs : List Field} {start : Nat}, Laid start mid fs →
    Laid mid stop gs → Laid start stop (fs ++ gs)
  | [], start, hle, hg => by
      cases gs with
      | nil => exact Nat.le_trans hle hg
      | cons g gs => exact ⟨Nat.le_trans hle hg.1, hg.2⟩
  | f :: fs, _, h, hg => ⟨h.1, Laid.append h.2 hg⟩

theorem Laid.mono {stop' : Nat} (h : Laid start stop fs) (hle : stop ≤ stop') :
    Laid start stop' fs := by
  have hmore := h.append (show Laid stop stop' [] from hle)
  rwa [List.append_nil] at hmore

theorem laid_fieldRun (width : Nat) : ∀ (vs : List Nat) (offset : Nat),
    Laid offset (offset + vs.length * width) (fieldRun offset width vs)
  | [], offset => Nat.le_add_right _ _
  | v :: vs, offset => by
      refine ⟨Nat.le_refl _, ?_⟩
      have hrest := laid_fieldRun width vs (offset + width)
      rw [List.length_cons, Nat.add_mul, Nat.one_mul, Nat.add_comm (vs.length * width),
        ← Nat.add_assoc]
      exact hrest

end Field

/-- A block laid out from fields in sequence has its size. -/
theorem Field.Laid.size_blockOf {size : Nat} {fs : List Field} (h : Field.Laid 0 size fs) :
    (blockOf size fs).size = size :=
  XfsVolume.size_blockOf fun f hf => (h.bounds f hf).2

/-- Every field of a block laid out from fields in sequence is read back. -/
theorem Field.Laid.beNat_blockOf {size : Nat} {fs : List Field} (h : Field.Laid 0 size fs)
    {off width v : Nat} (hf : ⟨off, width, v⟩ ∈ fs) (hv : v < 256 ^ width) :
    beNat (blockOf size fs) off width = v := by
  have hread := XfsVolume.beNat_blockOf (fun f hf => (h.bounds f hf).2) h.pairwise hf
  rwa [Nat.mod_eq_of_lt hv] at hread

/-! ## Numbers one behind the other -/

/-- The numbers stand one behind the other from byte `off` on, `width` bytes each. -/
def Carries (b : ByteArray) (width : Nat) : (off : Nat) → List Nat → Prop
  | _, [] => True
  | off, v :: vs => beNat b off width = v ∧ Carries b width (off + width) vs

/-- A run of fields of a block laid out in sequence is read back. -/
theorem Field.Laid.carries {size width : Nat} {fs : List Field} (h : Field.Laid 0 size fs) :
    ∀ {vs : List Nat} {off : Nat}, (∀ f ∈ fieldRun off width vs, f ∈ fs) →
      (∀ v ∈ vs, v < 256 ^ width) → Carries (blockOf size fs) width off vs
  | [], _, _, _ => trivial
  | v :: vs, off, hin, hv => by
      rw [fieldRun] at hin
      refine ⟨h.beNat_blockOf (hin _ List.mem_cons_self) (hv v List.mem_cons_self), ?_⟩
      exact Field.Laid.carries h (fun f hf => hin f (List.mem_cons_of_mem _ hf))
        fun w hw => hv w (List.mem_cons_of_mem _ hw)

/-! ## Lists cut and put together -/

theorem chunksOf_nil {α : Type} (n : Nat) : chunksOf n ([] : List α) = [] := by
  have hend : n = 0 ∨ ([] : List α).length = 0 := Or.inr rfl
  rw [chunksOf, dif_pos hend]

theorem chunksOf_eq_cons {α : Type} {n : Nat} {xs : List α} (hn : 0 < n) (hx : xs ≠ []) :
    chunksOf n xs = xs.take n :: chunksOf n (xs.drop n) := by
  have := List.length_pos_iff.mpr hx
  rw [chunksOf, dif_neg (by omega)]

/-- The chunks of a list, one after the other, are the list. -/
theorem flatten_chunksOf {α : Type} {n : Nat} (hn : 0 < n) (xs : List α) :
    (chunksOf n xs).flatten = xs := by
  induction h : xs.length using Nat.strongRecOn generalizing xs with
  | ind k ih =>
    by_cases hx : xs = []
    · rw [hx, chunksOf_nil, List.flatten_nil]
    · have hpos := List.length_pos_iff.mpr hx
      rw [chunksOf_eq_cons hn hx, List.flatten_cons, ih (xs.drop n).length _ _ rfl,
        List.take_append_drop]
      rw [List.length_drop]
      omega

/-- Chunks are not empty and no longer than asked for. -/
theorem length_of_mem_chunksOf {α : Type} {n : Nat} (xs : List α) :
    ∀ c ∈ chunksOf n xs, 0 < c.length ∧ c.length ≤ n := by
  induction h : xs.length using Nat.strongRecOn generalizing xs with
  | ind k ih =>
    intro c hc
    by_cases hx : n = 0 ∨ xs.length = 0
    · rw [chunksOf, dif_pos hx] at hc
      cases hc
    · rw [chunksOf, dif_neg hx] at hc
      rcases List.mem_cons.mp hc with rfl | hc
      · rw [List.length_take]
        omega
      · apply ih (xs.drop n).length _ _ rfl c hc
        rw [List.length_drop]
        omega

/-- Blocks that `n` records take, `per` of them in a block. -/
def blocksFor (n per : Nat) : Nat := (n + per - 1) / per

theorem blocksFor_zero {per : Nat} (h : 0 < per) : blocksFor 0 per = 0 := by
  rw [blocksFor, Nat.zero_add]
  exact Nat.div_eq_of_lt (by omega)

theorem blocksFor_eq_succ {n per : Nat} (hper : 0 < per) (hn : 0 < n) :
    blocksFor n per = blocksFor (n - per) per + 1 := by
  rw [blocksFor, blocksFor]
  by_cases hle : n ≤ per
  · have hrest : n - per + per - 1 = per - 1 := by omega
    have hall : n + per - 1 = (n - 1) + per := by omega
    rw [hrest, hall, Nat.add_div_right _ hper, Nat.div_eq_of_lt (show n - 1 < per by omega),
      Nat.div_eq_of_lt (show per - 1 < per by omega)]
  · have hall : n + per - 1 = (n - per + per - 1) + per := by omega
    rw [hall, Nat.add_div_right _ hper]

theorem blocksFor_pos {n per : Nat} (hper : 0 < per) (hn : 0 < n) : 0 < blocksFor n per := by
  rw [blocksFor_eq_succ hper hn]
  exact Nat.succ_pos _

/-- Records that do not fit one block take fewer blocks than there are of them. -/
theorem blocksFor_lt {n per : Nat} (hper : 2 ≤ per) (hn : per < n) : blocksFor n per < n := by
  rw [blocksFor, Nat.div_lt_iff_lt_mul (by omega)]
  have hmul : n * 2 ≤ n * per := Nat.mul_le_mul_left n hper
  have hmul' : 3 * per ≤ n * per := Nat.mul_le_mul_right per (by omega)
  omega

theorem length_chunksOf {α : Type} {n : Nat} (hn : 0 < n) (xs : List α) :
    (chunksOf n xs).length = blocksFor xs.length n := by
  induction h : xs.length using Nat.strongRecOn generalizing xs with
  | ind k ih =>
    by_cases hx : xs = []
    · rw [← h, hx, chunksOf_nil, List.length_nil, List.length_nil, blocksFor_zero hn]
    · have hpos := List.length_pos_iff.mpr hx
      rw [chunksOf_eq_cons hn hx, List.length_cons, ih (xs.drop n).length _ _ rfl,
        List.length_drop, ← h, blocksFor_eq_succ hn hpos]
      rw [List.length_drop]
      omega

/-- Lists that go together are cut into chunks that go together. -/
theorem forall₂_chunksOf {α β : Type} {r : α → β → Prop} {n : Nat} (hn : 0 < n) {xs : List α}
    {ys : List β} (h : List.Forall₂ r xs ys) :
    List.Forall₂ (List.Forall₂ r) (chunksOf n xs) (chunksOf n ys) := by
  induction hk : xs.length using Nat.strongRecOn generalizing xs ys with
  | ind k ih =>
    have hlength := h.length_eq
    by_cases hx : xs = []
    · subst hx
      cases h
      rw [chunksOf_nil, chunksOf_nil]
      exact .nil
    · have hpos := List.length_pos_iff.mpr hx
      have hy : ys ≠ [] := List.length_pos_iff.mp (by omega)
      rw [chunksOf_eq_cons hn hx, chunksOf_eq_cons hn hy]
      refine .cons (List.forall₂_take n h) (ih _ ?_ (List.forall₂_drop n h) rfl)
      rw [List.length_drop]
      omega

/-- Lists that go together still do when the members of both stand in the same places. -/
theorem forall₂_zip_zip {α β γ : Type} {r : β → γ → Prop} {xs : List β} {ys : List γ}
    (h : List.Forall₂ r xs ys) : ∀ {places : List α}, places.length = xs.length →
      List.Forall₂ (fun x y => x ∈ places.zip xs ∧ y.2 ∈ ys ∧ x.1 = y.1 ∧ r x.2 y.2)
        (places.zip xs) (places.zip ys) := by
  induction h with
  | nil => simp
  | @cons x y xs ys hxy _ ih =>
    intro places hlength
    cases places with
    | nil => cases hlength
    | cons place places =>
      refine .cons ⟨List.mem_cons_self, List.mem_cons_self, rfl, hxy⟩ ?_
      refine (ih (Nat.succ.inj hlength)).imp ?_
      rintro a c ⟨hin, hc, hsame, hac⟩
      exact ⟨List.mem_cons_of_mem _ hin, List.mem_cons_of_mem _ hc, hsame, hac⟩

/-- What is taken from the right list alone. -/
theorem flatMap_zip_right {α β γ : Type} (g : β → List γ) {xs : List α} {ys : List β}
    (hlength : xs.length = ys.length) : ((xs.zip ys).flatMap fun x => g x.2) = ys.flatMap g := by
  conv_rhs => rw [← List.map_snd_zip (Nat.le_of_eq hlength.symm), List.flatMap_map]

/-- What is taken from two lists in turn is what is taken from the one, and then from the other. -/
theorem flatMap_zip_perm {α β γ : Type} (f : α → γ) (g : β → List γ) {xs : List α} {ys : List β}
    (hlength : xs.length = ys.length) :
    ((xs.zip ys).flatMap fun x => f x.1 :: g x.2).Perm (xs.map f ++ ys.flatMap g) := by
  have hleft : (xs.zip ys).map (fun x => f x.1) = xs.map f := by
    conv_rhs => rw [← List.map_fst_zip (Nat.le_of_eq hlength), List.map_map]
    rfl
  have hsplit := List.flatMap_append_perm (xs.zip ys) (fun x => [f x.1]) (fun x => g x.2)
  rw [← List.map_eq_flatMap, hleft, flatMap_zip_right g hlength] at hsplit
  exact hsplit.symm

/-! ## Neighbours -/

theorem middle_neighbours (outer : Nat) : ∀ (left : Nat) (xs : List Nat),
    (neighbours outer left xs).map (·.2.1) = xs
  | _, [] => rfl
  | _, [_] => rfl
  | left, x :: y :: rest => by
      rw [neighbours, List.map_cons, middle_neighbours outer x (y :: rest)]

theorem length_neighbours (outer left : Nat) (xs : List Nat) :
    (neighbours outer left xs).length = xs.length := by
  rw [← List.length_map, middle_neighbours]

theorem mem_neighbours {outer left : Nat} {xs : List Nat} {place : Nat × Nat × Nat}
    (h : place ∈ neighbours outer left xs) : place.2.1 ∈ xs := by
  rw [← middle_neighbours outer left xs]
  exact List.mem_map_of_mem h

theorem zip_neighbours {α : Type} (outer left : Nat) (xs : List Nat) (ys : List α) :
    ((neighbours outer left xs).zip ys).map (fun x => (x.1.2.1, x.2)) = xs.zip ys := by
  conv_rhs => rw [← middle_neighbours outer left xs]
  rw [List.zip_map_left]
  rfl

theorem middle_zip_neighbours {α : Type} (outer left : Nat) {xs : List Nat} {ys : List α}
    (h : xs.length ≤ ys.length) :
    ((neighbours outer left xs).zip ys).map (·.1.2.1) = xs := by
  have hfst : (xs.zip ys).map Prod.fst = xs := List.map_fst_zip h
  rw [← zip_neighbours outer left, List.map_map] at hfst
  exact hfst

/-- What stands beside a member is another one, or what stands at the ends. -/
theorem beside_of_mem_neighbours {outer : Nat} : ∀ {xs : List Nat} {left : Nat}
    {place : Nat × Nat × Nat}, place ∈ neighbours outer left xs →
      (place.1 = left ∨ place.1 ∈ xs) ∧ (place.2.2 = outer ∨ place.2.2 ∈ xs)
  | [], _, _, h => by cases h
  | [x], left, place, h => by
      rw [neighbours, List.mem_singleton] at h
      rw [h]
      exact ⟨Or.inl rfl, Or.inl rfl⟩
  | x :: y :: rest, left, place, h => by
      rw [neighbours] at h
      rcases List.mem_cons.mp h with rfl | h
      · exact ⟨Or.inl rfl, Or.inr (List.mem_cons_of_mem _ List.mem_cons_self)⟩
      · obtain ⟨hleft, hright⟩ := beside_of_mem_neighbours h
        refine ⟨Or.inr ?_, hright.imp_right (List.mem_cons_of_mem _)⟩
        rcases hleft with rfl | hleft
        · exact List.mem_cons_self
        · exact List.mem_cons_of_mem _ hleft

end XfsVolume
