import Mathlib.Algebra.Order.BigOperators.Group.List
import Mathlib.Algebra.Order.Ring.Nat
import XfsVolume.Image.Builder
import XfsVolume.Proofs.Bytes
import XfsVolume.Proofs.Image.Options

/-!
# Room on a volume that is being built

What has been handed out is known from the front of each group and from the slots taken of its inode
block (`Builder.Owns`). A step keeps the bytes handed out before it, and changes no byte that it
does not take for itself (`Builder.Grows`), whether it succeeds or not; only the bytes that it was
given to write may differ. `Frames` says so of a step, and is closed under the ways in which steps
are put together.
-/

namespace XfsVolume

/-! ## Running steps -/

namespace BuildM

variable {α β : Type}

/-- `x` succeeds on `b` with the answer `a` and leaves `b'`. -/
def Gives (x : BuildM α) (b : Builder) (a : α) (b' : Builder) : Prop :=
  x.run.run b = (.ok a, b')

/-- What `x` leaves of `b`, whether it succeeds or not. -/
def after (x : BuildM α) (b : Builder) : Builder := (x.run.run b).2

variable {b b' : Builder}

theorem Gives.after_eq {x : BuildM α} {a : α} (h : Gives x b a b') : after x b = b' := by
  rw [after, h]

@[simp] theorem gives_pure {a c : α} : Gives (pure a) b c b' ↔ c = a ∧ b' = b := by
  show (Except.ok a, b) = (Except.ok c, b') ↔ _
  simp [eq_comm]

@[simp] theorem gives_throw {e : BuildFault} {a : α} : Gives (throw e) b a b' ↔ False := by
  show (Except.error e, b) = (Except.ok a, b') ↔ _
  simp

@[simp] theorem gives_get {c : Builder} : Gives get b c b' ↔ c = b ∧ b' = b := by
  show (Except.ok b, b) = (Except.ok c, b') ↔ _
  simp [eq_comm]

@[simp] theorem gives_modify {f : Builder → Builder} {u : Unit} :
    Gives (modify f) b u b' ↔ b' = f b := by
  show (Except.ok (), f b) = (Except.ok u, b') ↔ _
  simp [eq_comm]

@[simp] theorem gives_liftM {r : Except BuildFault α} {a : α} :
    Gives (liftM r) b a b' ↔ r = .ok a ∧ b' = b := by
  show (r, b) = (Except.ok a, b') ↔ _
  simp [eq_comm]

/-- Two steps succeed when the first does and the second does on what it leaves. -/
@[simp] theorem gives_bind {x : BuildM α} {f : α → BuildM β} {c : β} :
    Gives (x >>= f) b c b' ↔ ∃ a mid, Gives x b a mid ∧ Gives (f a) mid c b' := by
  rw [Gives, run_bind]
  constructor
  · intro h
    cases hx : x.run.run b with
    | mk r mid =>
      rw [hx] at h
      cases r with
      | error e => cases h
      | ok a => exact ⟨a, mid, hx, h⟩
  · rintro ⟨a, mid, hx, hf⟩
    rw [Gives] at hx
    rw [hx]
    exact hf

@[simp] theorem gives_options {o : ImageOptions} :
    Gives options b o b' ↔ o = b.options ∧ b' = b := by
  show (Except.ok b.options, b) = (Except.ok o, b') ↔ _
  simp [eq_comm]

@[simp] theorem gives_writeAt {off : Nat} {data : ByteArray} {u : Unit} :
    Gives (writeAt off data) b u b' ↔ b' = { b with image := overwrite b.image off data } := by
  rw [writeAt, gives_modify]

theorem gives_writeBlocks {address : Nat} {data : ByteArray} {u : Unit} :
    Gives (writeBlocks address data) b u b' ↔
      b' = { b with image := overwrite b.image (b.options.blockOffset address) data } := by
  simp [writeBlocks]

theorem gives_options_bind {f : ImageOptions → BuildM α} {a : α} :
    Gives (options >>= f) b a b' ↔ Gives (f b.options) b a b' := by
  simp

theorem gives_liftM_bind {r : Except BuildFault α} {f : α → BuildM β} {c : β} :
    Gives (liftM r >>= f) b c b' ↔ ∃ a, r = .ok a ∧ Gives (f a) b c b' := by
  simp [and_assoc]

theorem gives_ite {p : Prop} [Decidable p] {x y : BuildM α} {a : α} :
    Gives (if p then x else y) b a b' ↔ if p then Gives x b a b' else Gives y b a b' := by
  split <;> rfl

/-- A check that fails ends the steps; so where they succeed its condition does not hold. -/
theorem gives_guard {p : Prop} [Decidable p] {e : BuildFault} {f : Unit → BuildM α} {a : α} :
    Gives (if p then (throw e : BuildM Unit) >>= f else f ()) b a b' ↔
      ¬ p ∧ Gives (f ()) b a b' := by
  by_cases h : p
  · simp [h]
  · simp [h]

end BuildM

/-! ## Addresses of blocks that were handed out -/

namespace ImageOptions

variable {o : ImageOptions}

/-- `count` blocks of group `ag` from its block `agBlock` on, which has the given address. -/
structure Run (o : ImageOptions) (address count ag agBlock : Nat) : Prop where
  address : address = ag <<< o.agBlockLog + agBlock
  group : ag < o.agCount
  afterHeaders : 1 ≤ agBlock
  room : agBlock + count ≤ o.agBlocks

/-- Byte `i` lies in the `count` blocks from `address` on. -/
def InBlocks (o : ImageOptions) (address count i : Nat) : Prop :=
  o.blockOffset address ≤ i ∧ i < o.blockOffset address + count * imageBlockSize

/-- Byte `i` lies in the slot of inode `ino`. -/
def InSlot (o : ImageOptions) (ino i : Nat) : Prop :=
  o.inodeOffset ino ≤ i ∧ i < o.inodeOffset ino + o.inodeSize

/-- Blocks of a run lie side by side. -/
theorem Run.blockOffset_add {address count ag agBlock k : Nat} (h : o.Run address count ag agBlock)
    (hk : k < count) :
    o.blockOffset (address + k) = (o.volumeBlock ag agBlock + k) * imageBlockSize := by
  have hroom := h.room
  have hlog := o.agBlocks_le
  have hlt : agBlock + k < 2 ^ o.agBlockLog := by omega
  obtain ⟨hdiv, hmod⟩ := shift_digits_eq ag hlt
  rw [blockOffset, h.address, Nat.add_assoc, hdiv, hmod, volumeBlock, Nat.add_assoc]

theorem Run.blockOffset_eq {address count ag agBlock : Nat} (h : o.Run address count ag agBlock)
    (hc : 0 < count) : o.blockOffset address = o.volumeBlock ag agBlock * imageBlockSize := by
  have hfirst := h.blockOffset_add hc
  rwa [Nat.add_zero, Nat.add_zero] at hfirst

/-- A run ends inside the volume. -/
theorem Run.stop_le {address count ag agBlock : Nat} (h : o.Run address count ag agBlock)
    (hc : 0 < count) : o.volumeBlock ag agBlock + count ≤ o.totalBlocks := by
  have hroom := h.room
  have hlast : o.volumeBlock ag (agBlock + (count - 1)) < o.totalBlocks :=
    volumeBlock_lt h.group (by omega)
  rw [volumeBlock_add] at hlast
  omega

theorem Run.bytes_le {address count ag agBlock : Nat} (h : o.Run address count ag agBlock)
    (hc : 0 < count) : o.blockOffset address + count * imageBlockSize ≤
      o.totalBlocks * imageBlockSize := by
  rw [h.blockOffset_eq hc, ← Nat.add_mul]
  exact Nat.mul_le_mul_right _ (h.stop_le hc)

/-- The group of a run stands in the high bits of its address, and the block in the low ones. -/
theorem Run.address_lt_mul {address count ag agBlock : Nat} (h : o.Run address count ag agBlock)
    (hc : 0 < count) : address < o.agCount * 2 ^ o.agBlockLog := by
  have hroom := h.room
  have hlog := o.agBlocks_le
  rw [h.address, Nat.shiftLeft_eq]
  exact digits_lt h.group (by omega)

/-- A byte of a run lies in one of its blocks. -/
theorem Run.byte {address count ag agBlock i : Nat} (h : o.Run address count ag agBlock)
    (hi : o.InBlocks address count i) : ∃ k r, k < count ∧ r < imageBlockSize ∧
      i = o.volumeBlock ag (agBlock + k) * imageBlockSize + r := by
  have hc : 0 < count := by
    apply Nat.pos_of_ne_zero
    rintro rfl
    rw [InBlocks] at hi
    omega
  rw [InBlocks, h.blockOffset_eq hc] at hi
  refine ⟨(i - o.volumeBlock ag agBlock * imageBlockSize) / imageBlockSize,
    (i - o.volumeBlock ag agBlock * imageBlockSize) % imageBlockSize, ?_, ?_, ?_⟩
  · rw [Nat.div_lt_iff_lt_mul (by decide)]
    omega
  · exact Nat.mod_lt _ (by decide)
  · rw [volumeBlock_add, imageBlockSize]
    rw [imageBlockSize] at hi
    omega

/-- Blocks of a run are a run. -/
theorem Run.part {address count ag agBlock k n : Nat} (h : o.Run address count ag agBlock)
    (hk : k + n ≤ count) : o.Run (address + k) n ag (agBlock + k) where
  address := by rw [h.address, Nat.add_assoc]
  group := h.group
  afterHeaders := Nat.le_add_right_of_le h.afterHeaders
  room := by
    have hroom := h.room
    omega

/-- A byte of some blocks of a run is a byte of the run. -/
theorem Run.inBlocks_part {address count ag agBlock k n i : Nat}
    (h : o.Run address count ag agBlock) (hk : k + n ≤ count) (hi : o.InBlocks (address + k) n i) :
    o.InBlocks address count i := by
  have hn : 0 < n := by
    apply Nat.pos_of_ne_zero
    rintro rfl
    rw [InBlocks] at hi
    omega
  have hmul : (k + n) * imageBlockSize ≤ count * imageBlockSize := Nat.mul_le_mul_right _ hk
  rw [Nat.add_mul] at hmul
  rw [InBlocks, h.blockOffset_add (by omega), Nat.add_mul] at hi
  rw [InBlocks, h.blockOffset_eq (by omega)]
  omega

/-- The parts of a byte's place: its group, the block within it, and the byte within that. -/
theorem place_eq (o : ImageOptions) (ag : Nat) {agBlock r : Nat} (hb : agBlock < o.agBlocks)
    (hr : r < imageBlockSize) :
    (o.volumeBlock ag agBlock * imageBlockSize + r) / imageBlockSize / o.agBlocks = ag ∧
      (o.volumeBlock ag agBlock * imageBlockSize + r) / imageBlockSize % o.agBlocks = agBlock ∧
      (o.volumeBlock ag agBlock * imageBlockSize + r) % imageBlockSize = r := by
  obtain ⟨hblock, hbyte⟩ := digits_eq (o.volumeBlock ag agBlock) hr
  obtain ⟨hag, hin⟩ := digits_eq ag hb
  rw [hblock, hbyte, volumeBlock]
  exact ⟨hag, hin, rfl⟩

end ImageOptions

/-! ## What was handed out -/

namespace Builder

/-- Byte `i` was handed out: it lies in a block before the front of its group, behind the group's
headers, and in no slot that is still free. -/
def Owns (b : Builder) (i : Nat) : Prop :=
  ∃ next, b.nextBlocks[i / imageBlockSize / b.options.agBlocks]? = some next ∧
    1 ≤ i / imageBlockSize % b.options.agBlocks ∧
    i / imageBlockSize % b.options.agBlocks < next ∧
    ∀ block slot,
      b.inodeBlocks[i / imageBlockSize / b.options.agBlocks]? = some (some (block, slot)) →
      i / imageBlockSize % b.options.agBlocks = block →
      i % imageBlockSize < slot * b.options.inodeSize

/-- The fronts of the groups and the inode blocks lie where they should. -/
structure Sound (b : Builder) : Prop where
  accepted : b.options.Accepted
  size : b.image.size = b.options.totalBlocks * imageBlockSize
  groups : b.nextBlocks.size = b.options.agCount
  inodeGroups : b.inodeBlocks.size = b.options.agCount
  fronts : ∀ {ag next : Nat}, b.nextBlocks[ag]? = some next → 1 ≤ next ∧ next ≤ b.options.agBlocks
  slots : ∀ {ag block slot : Nat}, b.inodeBlocks[ag]? = some (some (block, slot)) →
    1 ≤ block ∧ slot ≤ b.options.inodesPerBlock ∧
      ∃ next, b.nextBlocks[ag]? = some next ∧ block < next

/-- `b'` comes after `b`: what was handed out stays so, and apart from the bytes of `spare` the
bytes handed out before and those not handed out since are the same. -/
structure Grows (spare : Nat → Prop) (b b' : Builder) : Prop where
  options : b'.options = b.options
  owns : ∀ {i}, b.Owns i → b'.Owns i
  keeps : ∀ {i}, b.Owns i ∨ ¬ b'.Owns i → ¬ spare i → byteAt b'.image i = byteAt b.image i

variable {b b' b'' : Builder} {spare spare' : Nat → Prop}

theorem Grows.refl (b : Builder) : b.Grows spare b := ⟨rfl, id, fun _ _ => rfl⟩

theorem Grows.trans (h : b.Grows spare b') (h' : b'.Grows spare b'') : b.Grows spare b'' where
  options := h'.options.trans h.options
  owns hi := h'.owns (h.owns hi)
  keeps {i} hi hspare := by
    rcases hi with hi | hi
    · rw [h'.keeps (Or.inl (h.owns hi)) hspare, h.keeps (Or.inl hi) hspare]
    · rw [h'.keeps (Or.inr hi) hspare, h.keeps (Or.inr fun hmid => hi (h'.owns hmid)) hspare]

theorem Grows.mono (h : b.Grows spare b') (hs : ∀ i, spare i → spare' i) : b.Grows spare' b' :=
  ⟨h.options, h.owns, fun hi hspare => h.keeps hi fun hin => hspare (hs _ hin)⟩

/-- Bytes that were taken after `b` need not be spared from it. -/
theorem Grows.absorb {taken : Nat → Prop} (h : b.Grows spare b')
    (h' : b'.Grows (fun i => spare i ∨ taken i) b'')
    (hfree : ∀ {i}, taken i → ¬ b.Owns i) (htaken : ∀ {i}, taken i → b'.Owns i) :
    b.Grows spare b'' where
  options := h'.options.trans h.options
  owns hi := h'.owns (h.owns hi)
  keeps {i} hi hspare := by
    have hnot : ¬ taken i := by
      intro hin
      rcases hi with hi | hi
      · exact hfree hin hi
      · exact hi (h'.owns (htaken hin))
    have hneither : ¬ (spare i ∨ taken i) := not_or.mpr ⟨hspare, hnot⟩
    rcases hi with hi | hi
    · rw [h'.keeps (Or.inl (h.owns hi)) hneither, h.keeps (Or.inl hi) hspare]
    · rw [h'.keeps (Or.inr hi) hneither, h.keeps (Or.inr fun hmid => hi (h'.owns hmid)) hspare]

/-- Blocks before the fronts of all groups, those of the headers included. -/
def taken (b : Builder) : Nat := b.nextBlocks.toList.sum

/-- No more blocks are taken than there are. -/
theorem Sound.taken_le (h : b.Sound) : b.taken ≤ b.options.totalBlocks := by
  have hle : ∀ next ∈ b.nextBlocks.toList, next ≤ b.options.agBlocks := by
    intro next hin
    obtain ⟨ag, hag⟩ := List.getElem?_of_mem hin
    rw [Array.getElem?_toList] at hag
    exact (h.fronts hag).2
  have hsum := List.sum_le_card_nsmul _ _ hle
  rw [Array.length_toList, h.groups, Nat.nsmul_eq_mul, Nat.mul_comm] at hsum
  exact hsum

theorem owns_place {ag agBlock r : Nat} (hb : agBlock < b.options.agBlocks)
    (hr : r < imageBlockSize) :
    b.Owns (b.options.volumeBlock ag agBlock * imageBlockSize + r) ↔
      ∃ next, b.nextBlocks[ag]? = some next ∧ 1 ≤ agBlock ∧ agBlock < next ∧
        ∀ block slot, b.inodeBlocks[ag]? = some (some (block, slot)) → agBlock = block →
          r < slot * b.options.inodeSize := by
  obtain ⟨hag, hblock, hbyte⟩ := b.options.place_eq ag hb hr
  rw [Owns, hag, hblock, hbyte]

theorem sound_empty {o : ImageOptions} (h : o.Accepted) : (Builder.empty o).Sound where
  accepted := h
  size := size_zeros _
  groups := Array.size_replicate
  inodeGroups := Array.size_replicate
  fronts {ag next} hnext := by
    have hpos := h.agBlocks
    rw [empty, Array.getElem?_replicate] at hnext
    split at hnext
    · cases hnext
      exact ⟨Nat.le_refl _, by show 1 ≤ o.agBlocks; omega⟩
    · cases hnext
  slots {ag block slot} hslot := by
    rw [empty, Array.getElem?_replicate] at hslot
    split at hslot
    · cases hslot
    · cases hslot

end Builder

end XfsVolume
