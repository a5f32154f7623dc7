import XfsVolume.Image.Builder
import XfsVolume.Proofs.Bytes
import XfsVolume.Proofs.Digits
import XfsVolume.Proofs.Steps

/-!
# What the options of a synthetic volume fix

Options from which a volume can be laid out have one of four inode sizes, and everything that is
computed from them is small. `geometry` is the geometry that a reader derives: it repeats the
options, so every size and shift that reading uses is the one that writing used.
-/

namespace XfsVolume

namespace ImageOptions

/-- A volume can be laid out from the options. -/
structure Accepted (o : ImageOptions) : Prop where
  inodePower : isPowerOfTwo o.inodeSize = true
  inodeSize : 256 ≤ o.inodeSize ∧ o.inodeSize ≤ 2048
  agBlocks : 16 ≤ o.agBlocks
  agCount : 1 ≤ o.agCount
  dirBlockLog : o.dirBlockLog ≤ 4

/-- The options are accepted, and the blocks of a group and the groups are counted in 32 bits. -/
structure Counted (o : ImageOptions) : Prop extends o.Accepted where
  agBlocksLt : o.agBlocks < 2 ^ 32
  agCountLt : o.agCount < 2 ^ 32

/-- The options are counted, and the volume is an array of bytes whose length is a signed number of
64 bits. -/
structure InMemory (o : ImageOptions) : Prop extends o.Counted where
  sizeLt : o.totalBlocks * imageBlockSize < 2 ^ 63

/-- The options are accepted, and neither a group nor the number of groups is larger than 2^20. -/
structure Bounded (o : ImageOptions) : Prop extends o.Accepted where
  agBlocksLe : o.agBlocks ≤ 2 ^ 20
  agCountLe : o.agCount ≤ 2 ^ 20

variable {o : ImageOptions}

/-! ## Inodes of a block -/

theorem Accepted.inode_cases (h : o.Accepted) :
    (o.inodeSize = 256 ∧ o.inodeLog = 8) ∨ (o.inodeSize = 512 ∧ o.inodeLog = 9) ∨
      (o.inodeSize = 1024 ∧ o.inodeLog = 10) ∨ (o.inodeSize = 2048 ∧ o.inodeLog = 11) := by
  have hsize := h.inodeSize
  have hpower := h.inodePower
  rw [isPowerOfTwo, Bool.and_eq_true, beq_iff_eq, Nat.one_shiftLeft] at hpower
  have hne : o.inodeSize ≠ 0 := by omega
  have hlow : 8 ≤ Nat.log2 o.inodeSize := (Nat.le_log2 hne).mpr (by omega)
  have hhigh : Nat.log2 o.inodeSize < 12 := (Nat.log2_lt hne).mpr (by omega)
  have hpow := hpower.2
  rw [inodeLog]
  generalize Nat.log2 o.inodeSize = k at hlow hhigh hpow
  have hk : k = 8 ∨ k = 9 ∨ k = 10 ∨ k = 11 := by omega
  rcases hk with rfl | rfl | rfl | rfl
  · exact Or.inl ⟨hpow.symm, rfl⟩
  · exact Or.inr (Or.inl ⟨hpow.symm, rfl⟩)
  · exact Or.inr (Or.inr (Or.inl ⟨hpow.symm, rfl⟩))
  · exact Or.inr (Or.inr (Or.inr ⟨hpow.symm, rfl⟩))

/-- The logarithms of the inode size and of the inodes of a block. -/
theorem Accepted.inode_logs (h : o.Accepted) :
    o.inodeSize = 2 ^ o.inodeLog ∧ o.inodesPerBlock = 2 ^ o.inodesPerBlockLog ∧
      o.inodeLog + o.inodesPerBlockLog = imageBlockLog ∧ 8 ≤ o.inodeLog ∧ o.inodeLog ≤ 11 := by
  have hcases := h.inode_cases
  rw [inodesPerBlock, inodesPerBlockLog, imageBlockLog, Nat.one_shiftLeft]
  rcases hcases with ⟨hs, hl⟩ | ⟨hs, hl⟩ | ⟨hs, hl⟩ | ⟨hs, hl⟩
  · rw [hs, hl]
    decide
  · rw [hs, hl]
    decide
  · rw [hs, hl]
    decide
  · rw [hs, hl]
    decide

/-- Inodes fill their block. -/
theorem Accepted.inodes_fill (h : o.Accepted) :
    o.inodesPerBlock * o.inodeSize = imageBlockSize := by
  obtain ⟨hsize, hper, hlogs, -, -⟩ := h.inode_logs
  rw [hsize, hper, ← Nat.pow_add, Nat.add_comm, hlogs]
  rfl

theorem Accepted.inodesPerBlock_pos (h : o.Accepted) : 0 < o.inodesPerBlock := by
  rw [h.inode_logs.2.1]
  exact Nat.two_pow_pos _

/-- The fork of an inode has room for four links of a tree at least. -/
theorem Accepted.literalLength_ge (h : o.Accepted) :
    80 ≤ o.literalLength ∧ o.coreLength + o.literalLength = o.inodeSize := by
  have hsize := h.inodeSize
  rw [literalLength, coreLength]
  split
  · rw [coreLengthV3]
    omega
  · rw [coreLengthV2]
    omega

/-! ## Blocks -/

/-- The block of the volume that is block `agBlock` of allocation group `ag`. -/
def volumeBlock (o : ImageOptions) (ag agBlock : Nat) : Nat := ag * o.agBlocks + agBlock

theorem agBlocks_le (o : ImageOptions) : o.agBlocks ≤ 2 ^ o.agBlockLog :=
  le_two_pow_ceilLog2 _

theorem Accepted.two_pow_agBlockLog_lt (h : o.Accepted) : 2 ^ o.agBlockLog < 2 * o.agBlocks := by
  have hblocks := h.agBlocks
  exact two_pow_ceilLog2_lt (by omega)

/-- Rounding groups up to a power of two leaves less than half of the addresses unused. -/
theorem Accepted.addresses_le (h : o.Accepted) :
    o.agCount * 2 ^ o.agBlockLog ≤ 2 * o.totalBlocks := by
  rw [totalBlocks, ← Nat.mul_assoc, Nat.mul_comm o.agCount]
  exact Nat.mul_le_mul_right _ (Nat.le_of_lt h.two_pow_agBlockLog_lt)

theorem Accepted.totalBlocks_pos (h : o.Accepted) : 0 < o.totalBlocks := by
  have hblocks := h.agBlocks
  have hcount := h.agCount
  exact Nat.mul_pos (by omega) (by omega)

theorem Counted.agBlockLog_le (h : o.Counted) : o.agBlockLog ≤ 32 :=
  ceilLog2_le (Nat.le_of_lt h.agBlocksLt)

theorem Counted.totalBlocks_lt (h : o.Counted) : o.totalBlocks < 2 ^ 64 := by
  have hmul : o.agBlocks * o.agCount < 2 ^ 32 * 2 ^ 32 :=
    Nat.mul_lt_mul_of_lt_of_lt h.agBlocksLt h.agCountLt
  rw [totalBlocks]
  omega

theorem InMemory.totalBlocks_lt (h : o.InMemory) : o.totalBlocks < 2 ^ 51 := by
  have hsize := h.sizeLt
  rw [imageBlockSize] at hsize
  omega

/-- Small groups, and not too many of them, are counted in 32 bits and make a volume of 2^52 bytes
at most. -/
theorem Bounded.inMemory (h : o.Bounded) : o.InMemory := by
  have hblocks := h.agBlocksLe
  have hcount := h.agCountLe
  have hmul := Nat.mul_le_mul hblocks hcount
  refine ⟨⟨h.toAccepted, by omega, by omega⟩, ?_⟩
  rw [totalBlocks, imageBlockSize]
  omega

theorem volumeBlock_lt {ag agBlock : Nat} (hag : ag < o.agCount) (hblock : agBlock < o.agBlocks) :
    o.volumeBlock ag agBlock < o.totalBlocks := by
  rw [volumeBlock, totalBlocks, Nat.mul_comm o.agBlocks]
  exact digits_lt hag hblock

theorem volumeBlock_add (ag agBlock k : Nat) :
    o.volumeBlock ag (agBlock + k) = o.volumeBlock ag agBlock + k :=
  (Nat.add_assoc _ _ _).symm

/-! ## Directory blocks -/

theorem blocksPerDirBlock_eq (o : ImageOptions) : o.blocksPerDirBlock = 2 ^ o.dirBlockLog := by
  rw [blocksPerDirBlock, Nat.one_shiftLeft]

theorem blocksPerDirBlock_pos (o : ImageOptions) : 0 < o.blocksPerDirBlock := by
  rw [blocksPerDirBlock_eq]
  exact Nat.two_pow_pos _

theorem dirBlockSize_eq (o : ImageOptions) :
    o.dirBlockSize = o.blocksPerDirBlock * imageBlockSize := by
  rw [dirBlockSize, blocksPerDirBlock_eq, Nat.shiftLeft_eq, Nat.mul_comm]

theorem Accepted.dir_cases (h : o.Accepted) : (o.dirBlockLog = 0 ∧ o.dirBlockSize = 4096) ∨
    (o.dirBlockLog = 1 ∧ o.dirBlockSize = 8192) ∨ (o.dirBlockLog = 2 ∧ o.dirBlockSize = 16384) ∨
      (o.dirBlockLog = 3 ∧ o.dirBlockSize = 32768) ∨
        (o.dirBlockLog = 4 ∧ o.dirBlockSize = 65536) := by
  have hle := h.dirBlockLog
  rw [dirBlockSize, imageBlockSize]
  generalize o.dirBlockLog = k at hle
  have hk : k = 0 ∨ k = 1 ∨ k = 2 ∨ k = 3 ∨ k = 4 := by omega
  rcases hk with rfl | rfl | rfl | rfl | rfl
  · exact Or.inl ⟨rfl, rfl⟩
  · exact Or.inr (Or.inl ⟨rfl, rfl⟩)
  · exact Or.inr (Or.inr (Or.inl ⟨rfl, rfl⟩))
  · exact Or.inr (Or.inr (Or.inr (Or.inl ⟨rfl, rfl⟩)))
  · exact Or.inr (Or.inr (Or.inr (Or.inr ⟨rfl, rfl⟩)))

theorem Accepted.dirBlockSize_bounds (h : o.Accepted) :
    4096 ≤ o.dirBlockSize ∧ o.dirBlockSize ≤ 65536 ∧ o.dirBlockSize % 8 = 0 := by
  have hcases := h.dir_cases
  omega

/-- The bytes of a directory block are counted in a word. -/
theorem Accepted.lt_wordLimit (h : o.Accepted) {b : ByteArray} (hb : b.size = o.dirBlockSize) :
    b.size < wordLimit := by
  have hbounds := h.dirBlockSize_bounds
  rw [hb, wordLimit, UInt64.size]
  omega

/-! ## The geometry -/

/-- The geometry of a volume laid out from the options. -/
def geometry (o : ImageOptions) (root : Nat) : Geometry where
  blockSize := UInt32.ofNat imageBlockSize
  blockLog := UInt8.ofNat imageBlockLog
  dataBlocks := UInt64.ofNat o.totalBlocks
  agBlocks := UInt32.ofNat o.agBlocks
  agBlockLog := UInt8.ofNat o.agBlockLog
  agCount := UInt32.ofNat o.agCount
  inodeSize := UInt16.ofNat o.inodeSize
  inodeLog := UInt8.ofNat o.inodeLog
  inodesPerBlockLog := UInt8.ofNat o.inodesPerBlockLog
  dirBlockLog := UInt8.ofNat o.dirBlockLog
  dirBlockSize := UInt32.ofNat o.dirBlockSize
  rootIno := UInt64.ofNat root
  isV5 := o.isV5
  hasFtype := o.ftype

/-- Reading uses the sizes and shifts of the options. -/
structure Measures (o : ImageOptions) (geo : Geometry) : Prop where
  blockSize : geo.blockSize.toNat = imageBlockSize
  blockLog : geo.blockLog.toNat = imageBlockLog
  dataBlocks : geo.dataBlocks.toNat = o.totalBlocks
  agBlocks : geo.agBlocks.toNat = o.agBlocks
  agBlockLog : geo.agBlockLog.toNat = o.agBlockLog
  agCount : geo.agCount.toNat = o.agCount
  inodeSize : geo.inodeSize.toNat = o.inodeSize
  inodeLog : geo.inodeLog.toNat = o.inodeLog
  inodesPerBlockLog : geo.inodesPerBlockLog.toNat = o.inodesPerBlockLog
  dirBlockLog : geo.dirBlockLog.toNat = o.dirBlockLog
  dirBlockSize : geo.dirBlockSize.toNat = o.dirBlockSize
  isV5 : geo.isV5 = o.isV5
  hasFtype : geo.hasFtype = o.ftype

theorem Counted.measures_geometry (h : o.Counted) (root : Nat) : o.Measures (o.geometry root) := by
  have htotal := h.totalBlocks_lt
  have hblocks := h.agBlocksLt
  have hcount := h.agCountLt
  have hlog := h.agBlockLog_le
  have hsize := h.inodeSize
  obtain ⟨-, -, hlogs, hlow, hhigh⟩ := h.inode_logs
  have hdirLog := h.dirBlockLog
  have hdir := h.dirBlockSize_bounds
  rw [imageBlockLog] at hlogs
  refine ⟨rfl, rfl, ?_, ?_, ?_, ?_, ?_, ?_, ?_, ?_, ?_, rfl, rfl⟩
  · exact UInt64.toNat_ofNat_of_lt' (by rw [UInt64.size]; omega)
  · exact UInt32.toNat_ofNat_of_lt' (by rw [UInt32.size]; omega)
  · exact UInt8.toNat_ofNat_of_lt' (by rw [UInt8.size]; omega)
  · exact UInt32.toNat_ofNat_of_lt' (by rw [UInt32.size]; omega)
  · exact UInt16.toNat_ofNat_of_lt' (by rw [UInt16.size]; omega)
  · exact UInt8.toNat_ofNat_of_lt' (by rw [UInt8.size]; omega)
  · exact UInt8.toNat_ofNat_of_lt' (by rw [UInt8.size]; omega)
  · exact UInt8.toNat_ofNat_of_lt' (by rw [UInt8.size]; omega)
  · exact UInt32.toNat_ofNat_of_lt' (by rw [UInt32.size]; omega)

variable {geo : Geometry}

theorem Measures.blocksPerDirBlock (h : o.Measures geo) :
    geo.blocksPerDirBlock = o.blocksPerDirBlock := by
  rw [Geometry.blocksPerDirBlock, h.dirBlockLog, ImageOptions.blocksPerDirBlock]

theorem Measures.indexRegion (h : o.Measures geo) : geo.indexRegion = 2 ^ 23 := by
  rw [Geometry.indexRegion, h.blockLog]
  rfl

theorem Measures.freeRegion (h : o.Measures geo) : geo.freeRegion = 2 ^ 24 := by
  rw [Geometry.freeRegion, h.blockLog]
  rfl

theorem Measures.inodeBits (h : o.Measures geo) : geo.inodeBits = o.inodeBits := by
  rw [Geometry.inodeBits, h.agBlockLog, h.inodesPerBlockLog, ImageOptions.inodeBits]

end ImageOptions

/-! ## An empty volume -/

/-- The volume that building starts from. -/
def Builder.empty (o : ImageOptions) : Builder where
  options := o
  image := zeros (o.totalBlocks * imageBlockSize)
  nextBlocks := Array.replicate o.agCount 1
  inodeBlocks := Array.replicate o.agCount none
  modes := []
  root := none

/-- Building starts from accepted options whose volume is an array, and with an empty volume. -/
theorem Builder.ofOptions_eq_ok {o : ImageOptions} {b : Builder} :
    Builder.ofOptions o = .ok b ↔
      o.Accepted ∧ o.totalBlocks * imageBlockSize < 2 ^ 63 ∧ b = Builder.empty o := by
  simp only [ofOptions, throw_bind, ite_error_eq_ok, pure_eq_ok, Bool.or_eq_true,
    decide_eq_true_eq, Bool.not_eq_true', not_or, Bool.not_eq_false]
  constructor
  · rintro ⟨⟨⟨hpower, hlow⟩, hhigh⟩, ⟨hblocks, hcount⟩, hdir, hlen, heq⟩
    cases heq
    exact ⟨⟨hpower, ⟨by omega, by omega⟩, by omega, by omega, by omega⟩, by omega, rfl⟩
  · rintro ⟨h, hlen, rfl⟩
    have hsize := h.inodeSize
    have hblocks := h.agBlocks
    have hcount := h.agCount
    have hdir := h.dirBlockLog
    exact ⟨⟨⟨h.inodePower, by omega⟩, by omega⟩, ⟨by omega, by omega⟩, by omega, by omega, rfl⟩

end XfsVolume
