import XfsVolume.Proofs.Extent.Linear

/-!
# Numbers taken apart

A block address is put together from an allocation group and a block of it, an inode number from a
group, a block of it and a slot in the block. Decoding accepts exactly the numbers that are put
together from places that the volume has, and gives those places (`deviceBlock_eq_ok`,
`inodeSlot_eq_ok`). For that the fields of the superblock need not agree with each other: it is
enough that the shifts derived from them are meaningful, as they are wherever there is a geometry.
In particular the byte offset of an inode, which is shifted within a word, loses no bits in an
accepted number, since the index of its slot is small.
-/

namespace XfsVolume

namespace Geometry

/-- Address of block `agBlock` of allocation group `ag`. -/
def address (geo : Geometry) (ag agBlock : Nat) : Nat := ag <<< geo.agBlockLog.toNat ||| agBlock

/-- Number of the inode in slot `index` of block `agBlock` of allocation group `ag`. -/
def inodeNumber (geo : Geometry) (ag agBlock index : Nat) : Nat :=
  ag <<< geo.inodeBits ||| agBlock <<< geo.inodesPerBlockLog.toNat ||| index

variable {geo : Geometry} {ag agBlock index : Nat}

theorem address_eq (h : agBlock < 2 ^ geo.agBlockLog.toNat) :
    geo.address ag agBlock = ag * 2 ^ geo.agBlockLog.toNat + agBlock :=
  shiftLeft_or_eq h

theorem inodeNumber_eq (ag : Nat) (hblock : agBlock < 2 ^ geo.agBlockLog.toNat)
    (hindex : index < 2 ^ geo.inodesPerBlockLog.toNat) :
    agBlock * 2 ^ geo.inodesPerBlockLog.toNat + index < 2 ^ geo.inodeBits ∧
      geo.inodeNumber ag agBlock index =
        ag * 2 ^ geo.inodeBits + (agBlock * 2 ^ geo.inodesPerBlockLog.toNat + index) := by
  have hplace : agBlock * 2 ^ geo.inodesPerBlockLog.toNat + index < 2 ^ geo.inodeBits := by
    rw [inodeBits, Nat.pow_add]
    exact digits_lt hblock hindex
  refine ⟨hplace, ?_⟩
  rw [inodeNumber, Nat.or_assoc, shiftLeft_or_eq hindex, shiftLeft_or_eq hplace]

/-! ## Blocks of the volume -/

theorem groupBlock_lt (hag : ag < geo.agCount.toNat) (hblock : agBlock < geo.agBlocks.toNat) :
    geo.groupBlock ag agBlock < geo.agBlocks.toNat * geo.agCount.toNat := by
  rw [groupBlock, Nat.mul_comm geo.agBlocks.toNat]
  exact digits_lt hag hblock

theorem blocks_lt_wordLimit (geo : Geometry) :
    geo.agBlocks.toNat * geo.agCount.toNat < wordLimit := by
  have hblocks := geo.agBlocks.toNat_lt
  have hcount := geo.agCount.toNat_lt
  have hmul : geo.agBlocks.toNat * geo.agCount.toNat ≤ (2 ^ 32 - 1) * (2 ^ 32 - 1) :=
    Nat.mul_le_mul (by omega) (by omega)
  rw [wordLimit, UInt64.size]
  omega

theorem groupBlock_inj {ag' agBlock' : Nat} (hblock : agBlock < geo.agBlocks.toNat)
    (hblock' : agBlock' < geo.agBlocks.toNat)
    (h : geo.groupBlock ag agBlock = geo.groupBlock ag' agBlock') :
    ag = ag' ∧ agBlock = agBlock' := by
  obtain ⟨hag, hmod⟩ := digits_eq ag hblock
  obtain ⟨hag', hmod'⟩ := digits_eq ag' hblock'
  rw [groupBlock, groupBlock] at h
  rw [h] at hag hmod
  exact ⟨hag.symm.trans hag', hmod.symm.trans hmod'⟩

theorem groupBlock_split {block : Nat} (h : block < geo.agBlocks.toNat * geo.agCount.toNat) :
    block / geo.agBlocks.toNat < geo.agCount.toNat ∧
      block % geo.agBlocks.toNat < geo.agBlocks.toNat ∧
      geo.groupBlock (block / geo.agBlocks.toNat) (block % geo.agBlocks.toNat) = block := by
  have hpos : 0 < geo.agBlocks.toNat := by
    apply Nat.pos_of_ne_zero
    intro hzero
    rw [hzero, Nat.zero_mul] at h
    exact Nat.not_lt_zero _ h
  refine ⟨Nat.div_lt_of_lt_mul h, Nat.mod_lt _ hpos, ?_⟩
  rw [groupBlock, Nat.mul_comm]
  exact Nat.div_add_mod _ _

/-! ## Addresses -/

theorem address_parts (geo : Geometry) (a : Nat) :
    geo.address (a >>> geo.agBlockLog.toNat) (a % 2 ^ geo.agBlockLog.toNat) = a := by
  rw [address_eq (Nat.mod_lt _ (Nat.two_pow_pos _)), Nat.shiftRight_eq_div_pow, Nat.mul_comm]
  exact Nat.div_add_mod _ _

theorem deviceBlock_inj {a a' block : Nat} (h : geo.deviceBlock a = .ok block)
    (h' : geo.deviceBlock a' = .ok block) : a = a' := by
  obtain ⟨-, hblock, rfl⟩ := deviceBlock_eq_ok.mp h
  obtain ⟨-, hblock', heq⟩ := deviceBlock_eq_ok.mp h'
  obtain ⟨hag, hin⟩ := groupBlock_inj hblock hblock' heq
  rw [← geo.address_parts a, ← geo.address_parts a', Nat.shiftRight_eq_div_pow,
    Nat.shiftRight_eq_div_pow, hag, hin]

/-! ## Inode numbers -/

/-- The volume has the slot: its group, its block in the group, and room for an inode where the slot
lies in the block; and the bits of an inode number can name it. -/
structure HasSlot (geo : Geometry) (slot : InodeSlot) : Prop where
  group : slot.ag < geo.agCount.toNat
  inGroup : slot.agBlock < geo.agBlocks.toNat
  addressable : slot.agBlock < 2 ^ geo.agBlockLog.toNat
  indexable : slot.index < 2 ^ geo.inodesPerBlockLog.toNat
  block : slot.block = geo.groupBlock slot.ag slot.agBlock
  offset : slot.offset = slot.index * 2 ^ geo.inodeLog.toNat
  inBlock : slot.offset + geo.inodeSize.toNat ≤ geo.blockSize.toNat

variable {slot : InodeSlot} {ino : Nat}

theorem HasSlot.index_lt (h : geo.HasSlot slot) : slot.index < UInt32.size := by
  have hsize := geo.blockSize.toNat_lt
  have hin := h.inBlock
  have hmul : slot.index * 1 ≤ slot.index * 2 ^ geo.inodeLog.toNat :=
    Nat.mul_le_mul_left _ (Nat.two_pow_pos _)
  rw [← h.offset, Nat.mul_one] at hmul
  rw [UInt32.size]
  omega

theorem index_shift_mod (hlog : geo.inodeLog.toNat ≤ 15) (h : index < UInt32.size) :
    index <<< geo.inodeLog.toNat % wordLimit = index * 2 ^ geo.inodeLog.toNat := by
  have hpow : 2 ^ geo.inodeLog.toNat ≤ 2 ^ 15 := Nat.pow_le_pow_right (by decide) hlog
  have hmul : index * 2 ^ geo.inodeLog.toNat ≤ UInt32.size * 2 ^ 15 :=
    Nat.mul_le_mul (Nat.le_of_lt h) hpow
  rw [Nat.shiftLeft_eq, Nat.mod_eq_of_lt]
  rw [wordLimit, UInt64.size]
  rw [UInt32.size] at hmul
  omega

/-- Where inode number `ino` points, whether or not the volume has the place. -/
def namedSlot (geo : Geometry) (ino : Nat) : InodeSlot where
  ag := ino >>> geo.inodeBits
  agBlock := ino % 2 ^ geo.inodeBits / 2 ^ geo.inodesPerBlockLog.toNat
  index := ino % 2 ^ geo.inodeBits % 2 ^ geo.inodesPerBlockLog.toNat
  block := geo.groupBlock (ino >>> geo.inodeBits)
    (ino % 2 ^ geo.inodeBits / 2 ^ geo.inodesPerBlockLog.toNat)
  offset := ino % 2 ^ geo.inodeBits % 2 ^ geo.inodesPerBlockLog.toNat * 2 ^ geo.inodeLog.toNat

theorem namedSlot_parts (geo : Geometry) (ino : Nat) :
    (geo.namedSlot ino).agBlock < 2 ^ geo.agBlockLog.toNat ∧
      (geo.namedSlot ino).index < 2 ^ geo.inodesPerBlockLog.toNat ∧
      geo.inodeNumber (geo.namedSlot ino).ag (geo.namedSlot ino).agBlock
        (geo.namedSlot ino).index = ino := by
  have hblock : (geo.namedSlot ino).agBlock < 2 ^ geo.agBlockLog.toNat := by
    rw [namedSlot, Nat.div_lt_iff_lt_mul (Nat.two_pow_pos _), ← Nat.pow_add, ← inodeBits]
    exact Nat.mod_lt _ (Nat.two_pow_pos _)
  have hindex : (geo.namedSlot ino).index < 2 ^ geo.inodesPerBlockLog.toNat :=
    Nat.mod_lt _ (Nat.two_pow_pos _)
  refine ⟨hblock, hindex, ?_⟩
  rw [(inodeNumber_eq _ hblock hindex).2, namedSlot, Nat.shiftRight_eq_div_pow, Nat.div_add_mod',
    Nat.div_add_mod']

/-- An inode number is accepted when it is that of a slot that the volume has, and then gives that
slot. -/
theorem inodeSlot_eq_ok (hlog : geo.inodeLog.toNat ≤ 15) : geo.inodeSlot ino = .ok slot ↔
    geo.HasSlot slot ∧ ino = geo.inodeNumber slot.ag slot.agBlock slot.index := by
  rw [inodeSlot]
  simp only [ite_error_eq_ok, Nat.not_le, Nat.not_lt, Nat.one_shiftLeft,
    Nat.shiftRight_eq_div_pow, Except.ok.injEq]
  constructor
  · rintro ⟨hag, hblock, hin, hindex, rfl⟩
    obtain ⟨haddress, hslot, hnumber⟩ := geo.namedSlot_parts ino
    rw [namedSlot, Nat.shiftRight_eq_div_pow] at hnumber
    exact ⟨⟨hag, hblock, haddress, hslot, rfl, index_shift_mod hlog hindex, hin⟩, hnumber.symm⟩
  · rintro ⟨h, rfl⟩
    obtain ⟨hplace, hnumber⟩ := inodeNumber_eq slot.ag h.addressable h.indexable
    obtain ⟨hag, hmod⟩ := digits_eq slot.ag hplace
    obtain ⟨hblock, hindex⟩ := digits_eq slot.agBlock h.indexable
    have hoffset := index_shift_mod hlog h.index_lt
    have hnamed : slot.ag * geo.agBlocks.toNat + slot.agBlock = slot.block := h.block.symm
    rw [hnumber, hag, hmod, hblock, hindex, hoffset, ← h.offset, hnamed]
    exact ⟨h.group, h.inGroup, h.inBlock, h.index_lt, rfl⟩

theorem HasSlot.eq {slot' : InodeSlot} (h : geo.HasSlot slot) (h' : geo.HasSlot slot')
    (hblock : slot.block = slot'.block) (hoffset : slot.offset = slot'.offset) : slot = slot' := by
  obtain ⟨ag, agBlock, index, block, offset⟩ := slot
  obtain ⟨ag', agBlock', index', block', offset'⟩ := slot'
  have hplace := hblock
  rw [h.block, h'.block] at hplace
  obtain ⟨rfl, rfl⟩ := groupBlock_inj h.inGroup h'.inGroup hplace
  have hindex := hoffset
  rw [h.offset, h'.offset] at hindex
  obtain rfl := Nat.eq_of_mul_eq_mul_right (Nat.two_pow_pos _) hindex
  obtain rfl : block = block' := hblock
  obtain rfl : offset = offset' := hoffset
  rfl

end Geometry

/-! ## Without validation -/

/-- Wherever a superblock has a geometry, whether or not its fields agree, decoding is exact: the
block and the offset of an accepted number are what its parts give over the naturals, below the word
limit and inside the block, the parts make up the number again, and no two accepted numbers have the
same block, or the same block and offset. -/
theorem Superblock.decoding_exact {sb : Superblock} {geo : Geometry} (h : sb.geometry = .ok geo) :
    (∀ address block, geo.deviceBlock address = .ok block →
      block = (address >>> geo.agBlockLog.toNat) * geo.agBlocks.toNat +
        address % 2 ^ geo.agBlockLog.toNat ∧
      block < wordLimit ∧
      geo.address (address >>> geo.agBlockLog.toNat) (address % 2 ^ geo.agBlockLog.toNat) =
        address) ∧
    (∀ ino slot, geo.inodeSlot ino = .ok slot →
      slot.block = slot.ag * geo.agBlocks.toNat + slot.agBlock ∧
      slot.block < wordLimit ∧
      slot.offset = slot.index * 2 ^ geo.inodeLog.toNat ∧
      slot.offset + geo.inodeSize.toNat ≤ geo.blockSize.toNat ∧
      geo.inodeNumber slot.ag slot.agBlock slot.index = ino) ∧
    (∀ address address' block, geo.deviceBlock address = .ok block →
      geo.deviceBlock address' = .ok block → address = address') ∧
    ∀ ino ino' slot slot', geo.inodeSlot ino = .ok slot → geo.inodeSlot ino' = .ok slot' →
      slot.block = slot'.block → slot.offset = slot'.offset → ino = ino' := by
  obtain ⟨hshift, rfl⟩ := geometry_eq_ok.mp h
  have hlog : sb.storedGeometry.inodeLog.toNat ≤ 15 := hshift.inodeLog
  refine ⟨fun address block hblock => ?_, fun ino slot hslot => ?_,
    fun address address' block => Geometry.deviceBlock_inj,
    fun ino ino' slot slot' hslot hslot' hblock hoffset => ?_⟩
  · obtain ⟨hag, hin, rfl⟩ := Geometry.deviceBlock_eq_ok.mp hblock
    have hlt := Geometry.groupBlock_lt hag hin
    refine ⟨?_, Nat.lt_trans hlt (Geometry.blocks_lt_wordLimit _),
      Geometry.address_parts _ address⟩
    rw [Nat.shiftRight_eq_div_pow]
    rfl
  · obtain ⟨hhas, hino⟩ := (Geometry.inodeSlot_eq_ok hlog).mp hslot
    refine ⟨hhas.block, ?_, hhas.offset, hhas.inBlock, hino.symm⟩
    rw [hhas.block]
    exact Nat.lt_trans (Geometry.groupBlock_lt hhas.group hhas.inGroup)
      (Geometry.blocks_lt_wordLimit _)
  · obtain ⟨hhas, rfl⟩ := (Geometry.inodeSlot_eq_ok hlog).mp hslot
    obtain ⟨hhas', rfl⟩ := (Geometry.inodeSlot_eq_ok hlog).mp hslot'
    rw [hhas.eq hhas' hblock hoffset]

/-- A superblock that fails its checks, but has a geometry: the shifts of an inode number fill a
word, and so do its blocks. -/
def Superblock.wideShifts : Superblock :=
  { stored ByteArray.empty with
    blockSize := 65536, blockLog := 16
    agBlocks := 0xFFFFFFFF, agBlockLog := 32, agCount := 0xFFFFFFFF
    inodeSize := 256, inodeLog := 15, inodesPerBlockLog := 31 }

/-- The second slot of the last block of its second group. -/
theorem Superblock.decoding_exact_wideShifts :
    wideShifts.geometry = .ok wideShifts.storedGeometry ∧ wideShifts.validate ≠ .ok () ∧
      ∃ slot, wideShifts.storedGeometry.inodeSlot 0xFFFFFFFF00000001 = .ok slot ∧
        slot.block = 0xFFFFFFFF + 0xFFFFFFFE ∧ slot.block < wordLimit ∧
        slot.offset = 1 * 2 ^ 15 ∧
        wideShifts.storedGeometry.inodeNumber slot.ag slot.agBlock slot.index =
          0xFFFFFFFF00000001 := by
  have hgeometry : wideShifts.geometry = .ok wideShifts.storedGeometry := rfl
  have hslot : wideShifts.storedGeometry.inodeSlot 0xFFFFFFFF00000001 =
      .ok ⟨1, 0xFFFFFFFE, 1, 0xFFFFFFFF + 0xFFFFFFFE, 1 * 2 ^ 15⟩ := rfl
  obtain ⟨-, hexact, -, -⟩ := decoding_exact hgeometry
  obtain ⟨-, hword, -, -, hnumber⟩ := hexact _ _ hslot
  exact ⟨hgeometry, nofun, _, hslot, rfl, hword, rfl, hnumber⟩

end XfsVolume
