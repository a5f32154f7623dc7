import Mathlib.Data.Set.Function
import XfsVolume.Inode.Load
import XfsVolume.Proofs.Geometry.Decoding

/-!
# Superblocks that pass their checks

The checks of a superblock tie its sizes, counts and logarithms together (`Consistent`). So a
checked superblock has a geometry, inodes fill their block, and every block and every slot of the
allocation groups has exactly one number, whether or not the length of a group is a power of two.

The checks look less closely at the root: its number names a group, but the place in the group may
lie past the group's end, or past the end of the volume where that cuts the last group short. Such
a root is refused when its inode is looked for.
-/

namespace XfsVolume

namespace Superblock

/-! ## The checks -/

/-- What the checks establish, in their order. -/
structure Consistent (sb : Superblock) : Prop where
  version : sb.version = 4 ∧ sb.versionNum &&& dirV2Bit ≠ 0 ∨
    sb.version = 5 ∧ sb.incompatFeatures &&& ~~~readableFeatures = 0
  blockSize : sb.blockSize.toNat = supportedBlockSize
  blockLog : 2 ^ sb.blockLog.toNat = sb.blockSize.toNat
  inodeSize : 256 ≤ sb.inodeSize.toNat ∧ sb.inodeSize.toNat ≤ 2048
  inodeLog : 2 ^ sb.inodeLog.toNat = sb.inodeSize.toNat
  inodesPerBlock : sb.inodesPerBlock.toNat = sb.blockSize.toNat / sb.inodeSize.toNat
  inodesPerBlockLog : 2 ^ sb.inodesPerBlockLog.toNat = sb.inodesPerBlock.toNat
  agBlocks : sb.agBlocks ≠ 0
  agCount : sb.agCount ≠ 0
  agBlockLog : sb.agBlockLog.toNat = ceilLog2 sb.agBlocks.toNat
  dataBlocks : sb.dataBlocks ≠ 0 ∧ sb.dataBlocks.toNat ≤ sb.agBlocks.toNat * sb.agCount.toNat
  dirBlock : sb.blockLog.toNat + sb.dirBlockLog.toNat ≤ 16
  root : sb.agBlockLog.toNat + sb.inodesPerBlockLog.toNat < 64 ∧
    sb.rootIno.toNat >>> (sb.agBlockLog.toNat + sb.inodesPerBlockLog.toNat) < sb.agCount.toNat

variable {sb : Superblock}

theorem checkVersion_eq_ok : sb.checkVersion = .ok () ↔
    sb.version = 4 ∧ sb.versionNum &&& dirV2Bit ≠ 0 ∨
      sb.version = 5 ∧ sb.incompatFeatures &&& ~~~readableFeatures = 0 := by
  rw [checkVersion]
  by_cases h4 : sb.version = 4
  · have h5 : sb.version ≠ 5 := by
      rw [h4]
      decide
    simp [h4]
  · by_cases h5 : sb.version = 5
    · simp [h5]
    · simp [h4, h5]

theorem checkBlockSize_eq_ok : sb.checkBlockSize = .ok () ↔
    sb.blockSize.toNat = supportedBlockSize ∧ 2 ^ sb.blockLog.toNat = sb.blockSize.toNat := by
  simp only [checkBlockSize, ite_error_eq_ok, Bool.or_eq_true, Bool.not_eq_true',
    decide_eq_true_eq, not_or, Decidable.not_not, Nat.one_shiftLeft, and_true]
  constructor
  · rintro ⟨⟨-, hlog⟩, hsize⟩
    exact ⟨hsize, hlog⟩
  · rintro ⟨hsize, hlog⟩
    have hpower : isPowerOfTwo supportedBlockSize = true := by decide
    rw [hsize] at hlog ⊢
    exact ⟨⟨⟨⟨by rw [hpower]; decide, by decide⟩, by decide⟩, hlog⟩, rfl⟩

theorem checkInodeSize_eq_ok : sb.checkInodeSize = .ok () ↔
    (256 ≤ sb.inodeSize.toNat ∧ sb.inodeSize.toNat ≤ 2048) ∧
      2 ^ sb.inodeLog.toNat = sb.inodeSize.toNat ∧
      sb.inodesPerBlock.toNat = sb.blockSize.toNat / sb.inodeSize.toNat ∧
      2 ^ sb.inodesPerBlockLog.toNat = sb.inodesPerBlock.toNat := by
  simp only [checkInodeSize, ite_error_eq_ok, Bool.or_eq_true, decide_eq_true_eq, not_or,
    Decidable.not_not, Nat.not_lt, Nat.one_shiftLeft, and_true]
  constructor
  · rintro ⟨⟨hsize, hlog⟩, hcount, hcountLog⟩
    exact ⟨hsize, hlog, hcount, hcountLog.trans hcount.symm⟩
  · rintro ⟨hsize, hlog, hcount, hcountLog⟩
    exact ⟨⟨hsize, hlog⟩, hcount, hcountLog.trans hcount⟩

theorem checkGroups_eq_ok : sb.checkGroups = .ok () ↔
    (sb.agBlocks ≠ 0 ∧ sb.agCount ≠ 0) ∧ sb.agBlockLog.toNat = ceilLog2 sb.agBlocks.toNat ∧
      sb.dataBlocks ≠ 0 ∧ sb.dataBlocks.toNat ≤ sb.agBlocks.toNat * sb.agCount.toNat := by
  simp only [checkGroups, ite_error_eq_ok, Bool.or_eq_true, beq_iff_eq, decide_eq_true_eq, not_or,
    Decidable.not_not, Nat.not_lt, and_true, ne_eq]

theorem checkDirBlockSize_eq_ok : sb.checkDirBlockSize = .ok () ↔
    sb.blockLog.toNat + sb.dirBlockLog.toNat ≤ 16 := by
  simp only [checkDirBlockSize, ite_error_eq_ok, Nat.not_lt, and_true]

theorem checkRoot_eq_ok : sb.checkRoot = .ok () ↔
    sb.agBlockLog.toNat + sb.inodesPerBlockLog.toNat < 64 ∧
      sb.rootIno.toNat >>> (sb.agBlockLog.toNat + sb.inodesPerBlockLog.toNat) <
        sb.agCount.toNat := by
  simp only [checkRoot, ite_error_eq_ok, Bool.or_eq_true, decide_eq_true_eq, not_or, Nat.not_le,
    and_true]

theorem validate_eq_ok : sb.validate = .ok () ↔ sb.Consistent := by
  simp only [validate, check_eq_ok, checkVersion_eq_ok, checkBlockSize_eq_ok,
    checkInodeSize_eq_ok, checkGroups_eq_ok, checkDirBlockSize_eq_ok, checkRoot_eq_ok]
  constructor
  · rintro ⟨hversion, ⟨hblock, hblockLog⟩, ⟨hinode, hinodeLog, hcount, hcountLog⟩,
      ⟨⟨hagBlocks, hagCount⟩, hagLog, hdata⟩, hdir, hroot⟩
    exact ⟨hversion, hblock, hblockLog, hinode, hinodeLog, hcount, hcountLog, hagBlocks, hagCount,
      hagLog, hdata, hdir, hroot⟩
  · intro h
    exact ⟨h.version, ⟨h.blockSize, h.blockLog⟩,
      ⟨h.inodeSize, h.inodeLog, h.inodesPerBlock, h.inodesPerBlockLog⟩,
      ⟨⟨h.agBlocks, h.agCount⟩, h.agBlockLog, h.dataBlocks⟩, h.dirBlock, h.root⟩

/-! ## Sizes and logarithms -/

namespace Consistent

theorem inodeLogs (h : sb.Consistent) :
    sb.inodeLog.toNat + sb.inodesPerBlockLog.toNat = 12 ∧ 8 ≤ sb.inodeLog.toNat := by
  have hsize := h.inodeSize
  have hcount := h.inodesPerBlockLog
  have hlog := h.inodeLog
  rw [h.inodesPerBlock, h.blockSize, supportedBlockSize] at hcount
  rw [← hlog] at hsize hcount
  have hlow : 8 ≤ sb.inodeLog.toNat :=
    (Nat.pow_le_pow_iff_right Nat.one_lt_two).mp (show 2 ^ 8 ≤ _ from hsize.1)
  have hhigh : sb.inodeLog.toNat ≤ 11 :=
    (Nat.pow_le_pow_iff_right Nat.one_lt_two).mp (show _ ≤ 2 ^ 11 from hsize.2)
  have hdiv : 2 ^ 12 / 2 ^ sb.inodeLog.toNat = 2 ^ (12 - sb.inodeLog.toNat) :=
    Nat.pow_div (by omega) (by decide)
  have hrest : sb.inodesPerBlockLog.toNat = 12 - sb.inodeLog.toNat :=
    Nat.pow_right_injective (Nat.le_refl 2) (hcount.trans hdiv)
  omega

/-- Inodes fill their block. -/
theorem inodes_fill (h : sb.Consistent) :
    sb.inodesPerBlock.toNat * sb.inodeSize.toNat = sb.blockSize.toNat := by
  have hlogs := h.inodeLogs.1
  rw [← h.inodesPerBlockLog, ← h.inodeLog, ← Nat.pow_add, Nat.add_comm, hlogs, h.blockSize]
  rfl

theorem agBlocks_le (h : sb.Consistent) : sb.agBlocks.toNat ≤ 2 ^ sb.agBlockLog.toNat := by
  rw [h.agBlockLog]
  exact le_two_pow_ceilLog2 _

theorem agBlockLog_le (h : sb.Consistent) : sb.agBlockLog.toNat ≤ 32 := by
  have hlt := sb.agBlocks.toNat_lt
  rw [h.agBlockLog, ceilLog2]
  split
  · exact Nat.zero_le _
  · have hlog : Nat.log2 (sb.agBlocks.toNat - 1) < 32 := (Nat.log2_lt (by omega)).mpr (by omega)
    omega

theorem shiftable (h : sb.Consistent) : sb.Shiftable where
  blockLog := by
    have hdir := h.dirBlock
    omega
  blockSize := by rw [Nat.one_shiftLeft, h.blockLog]
  inodeBits := h.root.1
  inodeLog := by
    have hlogs := h.inodeLogs
    omega
  agBlocks := h.agBlocks
  agCount := h.agCount
  dirBlock := h.dirBlock

theorem geometry_eq (h : sb.Consistent) : sb.geometry = .ok sb.storedGeometry :=
  geometry_eq_ok.mpr ⟨h.shiftable, rfl⟩

end Consistent

/-! ## Every block and every slot -/

theorem Consistent.hasSlot (h : sb.Consistent) {ag agBlock index : Nat}
    (hag : ag < sb.agCount.toNat) (hblock : agBlock < sb.agBlocks.toNat)
    (hindex : index < sb.inodesPerBlock.toNat) :
    sb.storedGeometry.HasSlot {
      ag, agBlock, index
      block := sb.storedGeometry.groupBlock ag agBlock
      offset := index * sb.inodeSize.toNat } where
  group := hag
  inGroup := hblock
  addressable := Nat.lt_of_lt_of_le hblock h.agBlocks_le
  indexable := by
    rw [← h.inodesPerBlockLog] at hindex
    exact hindex
  block := rfl
  offset := by
    show index * sb.inodeSize.toNat = index * 2 ^ sb.inodeLog.toNat
    rw [h.inodeLog]
  inBlock := by
    show index * sb.inodeSize.toNat + sb.inodeSize.toNat ≤ sb.blockSize.toNat
    rw [← h.inodes_fill, ← Nat.succ_mul]
    exact Nat.mul_le_mul_right _ hindex

theorem Consistent.deviceBlock_address (h : sb.Consistent) {ag agBlock : Nat}
    (hag : ag < sb.agCount.toNat) (hblock : agBlock < sb.agBlocks.toNat) :
    sb.storedGeometry.address ag agBlock < wordLimit ∧
      sb.storedGeometry.deviceBlock (sb.storedGeometry.address ag agBlock) =
        .ok (sb.storedGeometry.groupBlock ag agBlock) := by
  have hfits : agBlock < 2 ^ sb.storedGeometry.agBlockLog.toNat :=
    Nat.lt_of_lt_of_le hblock h.agBlocks_le
  rw [Geometry.address_eq hfits]
  constructor
  · have hlog : 2 ^ sb.agBlockLog.toNat ≤ 2 ^ 32 :=
      Nat.pow_le_pow_right (by decide) h.agBlockLog_le
    have hcount := sb.agCount.toNat_lt
    have hword : wordLimit = 2 ^ 32 * 2 ^ 32 := rfl
    rw [hword]
    exact Nat.lt_of_lt_of_le (digits_lt (hag.trans hcount) hfits) (Nat.mul_le_mul_left _ hlog)
  · rw [← Nat.shiftLeft_eq]
    exact Geometry.deviceBlock_eq hag (by rwa [Nat.one_shiftLeft]) hblock

/-- A checked superblock has a geometry in which inodes fill their block, each at the place that its
slot counts; the accepted block addresses stand for the blocks of the groups, one address for each;
and every slot of every block is found by its number. -/
theorem geometry_complete (h : sb.validate = .ok ()) : ∃ geo, sb.geometry = .ok geo ∧
    sb.inodesPerBlock.toNat * geo.inodeSize.toNat = geo.blockSize.toNat ∧
    (∀ ino slot, geo.inodeSlot ino = .ok slot →
      slot.index < sb.inodesPerBlock.toNat ∧ slot.offset = slot.index * geo.inodeSize.toNat) ∧
    Set.BijOn geo.deviceBlock
      {address | address < wordLimit ∧ ∃ block, geo.deviceBlock address = .ok block}
      (Except.ok '' {block | block < geo.agBlocks.toNat * geo.agCount.toNat}) ∧
    ∀ block < geo.agBlocks.toNat * geo.agCount.toNat, ∀ index < sb.inodesPerBlock.toNat,
      let ag := block / geo.agBlocks.toNat
      let agBlock := block % geo.agBlocks.toNat
      geo.inodeNumber ag agBlock index < wordLimit →
        geo.inodeSlot (geo.inodeNumber ag agBlock index) =
          .ok { ag, agBlock, index, block, offset := index * geo.inodeSize.toNat } := by
  have hsb := validate_eq_ok.mp h
  have hlog : sb.storedGeometry.inodeLog.toNat ≤ 15 := hsb.shiftable.inodeLog
  refine ⟨_, hsb.geometry_eq, hsb.inodes_fill, ?_, ⟨?_, ?_, ?_⟩, ?_⟩
  · intro ino slot hslot
    obtain ⟨hhas, -⟩ := (Geometry.inodeSlot_eq_ok hlog).mp hslot
    refine ⟨?_, ?_⟩
    · rw [← hsb.inodesPerBlockLog]
      exact hhas.indexable
    · rw [hhas.offset]
      exact congrArg _ hsb.inodeLog
  -- an accepted address stands for a block, no two of them for one, and each block has one
  · rintro address ⟨-, block, hblock⟩
    obtain ⟨hag, hin, rfl⟩ := Geometry.deviceBlock_eq_ok.mp hblock
    exact ⟨_, Geometry.groupBlock_lt hag hin, hblock.symm⟩
  · rintro address ⟨-, block, hblock⟩ address' - heq
    exact Geometry.deviceBlock_inj hblock (heq.symm.trans hblock)
  · rintro - ⟨block, hblock, rfl⟩
    obtain ⟨hag, hin, hwhole⟩ := Geometry.groupBlock_split hblock
    obtain ⟨hword, hnames⟩ := hsb.deviceBlock_address hag hin
    rw [hwhole] at hnames
    exact ⟨_, ⟨hword, _, hnames⟩, hnames⟩
  · intro block hblock index hindex ag agBlock _
    obtain ⟨hag, hin, hwhole⟩ := Geometry.groupBlock_split hblock
    have hslot := (Geometry.inodeSlot_eq_ok hlog).mpr ⟨hsb.hasSlot hag hin hindex, rfl⟩
    rw [hwhole] at hslot
    exact hslot

/-- A valid superblock but for its root: two groups of 200 blocks, which is no power of two, so that
an address has room for 256 blocks of a group. -/
def twoGroups (root : UInt64) : Superblock :=
  { stored ByteArray.empty with
    versionNum := 5, incompatFeatures := 1, rootIno := root
    blockSize := 4096, blockLog := 12, dirBlockLog := 0
    inodeSize := 512, inodeLog := 9, inodesPerBlock := 8, inodesPerBlockLog := 3
    agBlocks := 200, agBlockLog := 8, agCount := 2, dataBlocks := 400 }

/-- The last slot of block 5 of the second group. -/
theorem geometry_complete_twoGroups : (twoGroups 64).validate = .ok () ∧
    ∃ geo, (twoGroups 64).geometry = .ok geo ∧ 8 * geo.inodeSize.toNat = geo.blockSize.toNat ∧
      geo.inodeSlot (geo.inodeNumber 1 5 7) =
        .ok { ag := 1, agBlock := 5, index := 7, block := 205, offset := 7 * 512 } := by
  have hvalid : (twoGroups 64).validate = .ok () := rfl
  obtain ⟨geo, hgeo, hfill, -, -, hslots⟩ := geometry_complete hvalid
  refine ⟨hvalid, geo, hgeo, hfill, ?_⟩
  cases hgeo
  exact hslots 205 (by decide) 7 (by decide) (by decide)

/-! ## The root -/

/-- In a checked volume, a number that names a group is refused if its block lies past the end of
the group or of the volume, and found otherwise. -/
theorem Consistent.locate_eq (h : sb.Consistent) {ino : Nat}
    (hgroup : (sb.storedGeometry.namedSlot ino).ag < sb.agCount.toNat) :
    sb.storedGeometry.locate ino =
      if sb.agBlocks.toNat ≤ (sb.storedGeometry.namedSlot ino).agBlock then
        .error (.outOfRange ino (.decode (.invalidField "ino" "AG block beyond sb_agblocks")))
      else if sb.dataBlocks.toNat ≤ (sb.storedGeometry.namedSlot ino).block then
        .error (.outOfRange ino
          (.beyondVolume (sb.storedGeometry.namedSlot ino).block sb.dataBlocks.toNat))
      else .ok (sb.storedGeometry.namedSlot ino) := by
  by_cases hin : sb.agBlocks.toNat ≤ (sb.storedGeometry.namedSlot ino).agBlock
  · have hrefused : sb.storedGeometry.inodeSlot ino =
        .error (.invalidField "ino" "AG block beyond sb_agblocks") := by
      rw [Geometry.inodeSlot]
      simp only [Nat.one_shiftLeft, Nat.shiftRight_eq_div_pow _ (UInt8.toNat _)]
      exact (if_neg (Nat.not_le.mpr hgroup)).trans (if_pos hin)
    rw [if_pos hin, Geometry.locate, hrefused]
    rfl
  · obtain ⟨-, hindex, hnumber⟩ := sb.storedGeometry.namedSlot_parts ino
    have hslots : (sb.storedGeometry.namedSlot ino).index < sb.inodesPerBlock.toNat := by
      rw [← h.inodesPerBlockLog]
      exact hindex
    have hhas := h.hasSlot hgroup (Nat.not_le.mp hin) hslots
    have hslot : sb.storedGeometry.inodeSlot ino = .ok (sb.storedGeometry.namedSlot ino) := by
      rw [Geometry.inodeSlot_eq_ok h.shiftable.inodeLog]
      refine ⟨?_, hnumber.symm⟩
      have hoffset : (sb.storedGeometry.namedSlot ino).index * sb.inodeSize.toNat =
          (sb.storedGeometry.namedSlot ino).offset := by
        rw [← h.inodeLog]
        rfl
      rw [hoffset] at hhas
      exact hhas
    rw [if_neg hin, Geometry.locate, hslot, mapError_ok, ok_bind]
    by_cases hvol : sb.dataBlocks.toNat ≤ (sb.storedGeometry.namedSlot ino).block
    · rw [if_pos hvol]
      exact if_pos hvol
    · rw [if_neg hvol]
      exact if_neg hvol

/-- The root of a checked volume is in one of its groups. It is found if its block lies inside the
group and inside the volume, and refused otherwise. -/
theorem locate_root {geo : Geometry} (hvalid : sb.validate = .ok ())
    (hgeo : sb.geometry = .ok geo) :
    let root := geo.rootIno.toNat
    let slot := geo.namedSlot root
    slot.ag < geo.agCount.toNat ∧
      geo.locate root =
        if geo.agBlocks.toNat ≤ slot.agBlock then
          .error (.outOfRange root (.decode (.invalidField "ino" "AG block beyond sb_agblocks")))
        else if geo.dataBlocks.toNat ≤ slot.block then
          .error (.outOfRange root (.beyondVolume slot.block geo.dataBlocks.toNat))
        else .ok slot := by
  obtain ⟨-, rfl⟩ := geometry_eq_ok.mp hgeo
  have hsb := validate_eq_ok.mp hvalid
  exact ⟨hsb.root.2, hsb.locate_eq hsb.root.2⟩

/-- A root in block 8 of the first group. -/
theorem locate_root_twoGroups : (twoGroups 64).validate = .ok () ∧
    (twoGroups 64).storedGeometry.locate 64 =
      .ok { ag := 0, agBlock := 8, index := 0, block := 8, offset := 0 } := by
  have hvalid : (twoGroups 64).validate = .ok () := rfl
  have hgeo : (twoGroups 64).geometry = .ok (twoGroups 64).storedGeometry := rfl
  obtain ⟨-, hroot⟩ := locate_root hvalid hgeo
  exact ⟨hvalid, hroot⟩

/-- The root's number names block 230 of a group of 200 blocks: the superblock passes its checks, but
its root is not found. -/
theorem root_past_group : (twoGroups 1840).validate = .ok () ∧
    (twoGroups 1840).geometry = .ok (twoGroups 1840).storedGeometry ∧
      ∀ slot, (twoGroups 1840).storedGeometry.locate
        (twoGroups 1840).storedGeometry.rootIno.toNat ≠ .ok slot :=
  ⟨rfl, rfl, nofun⟩

end Superblock

end XfsVolume
