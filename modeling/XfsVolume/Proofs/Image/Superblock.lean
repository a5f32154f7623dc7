import XfsVolume.Image.Finish
import XfsVolume.Proofs.Fields
import XfsVolume.Proofs.Image.Options
import XfsVolume.Proofs.Volume.Mount

/-!
# The superblock of a synthetic volume

The superblock says what the volume was laid out from: a device that starts with it has the geometry
of the options, and passes every check when its root lies in a group of the volume. So a synthetic
volume can always be mounted, its superblock being taken as it stands if the root is elsewhere.
-/

namespace XfsVolume

namespace ImageOptions

variable {o : ImageOptions} {root : Nat}

theorem laid_superblockFields (o : ImageOptions) (root : Nat) :
    Field.Laid 0 sectorSize (o.superblockFields root) := by
  cases hv : o.isV5 <;> cases hf : o.ftype <;>
    simp [superblockFields, featureFields, hv, hf, Field.Laid, Field.stop, sectorSize]

theorem size_imageUuid : imageUuid.size = 16 := by decide

theorem size_imageLabel : imageLabel.size = 4 := by decide

theorem size_superblock (o : ImageOptions) (root : Nat) :
    (o.superblock root).size = sectorSize := by
  have hfields := (o.laid_superblockFields root).size_blockOf
  have huuid : (overwrite (blockOf sectorSize (o.superblockFields root)) 32 imageUuid).size =
      sectorSize := by
    rw [size_overwrite (by rw [size_imageUuid, hfields]; decide), hfields]
  rw [superblock, size_overwrite (by rw [size_imageLabel, huuid]; decide), huuid]

theorem beNat_superblock (root : Nat) {off n : Nat}
    (h : off + n ≤ 32 ∨ (48 ≤ off ∧ off + n ≤ 108) ∨ 112 ≤ off) :
    beNat (o.superblock root) off n = beNat (blockOf sectorSize (o.superblockFields root)) off n := by
  have hfields := (o.laid_superblockFields root).size_blockOf
  have huuid : (overwrite (blockOf sectorSize (o.superblockFields root)) 32 imageUuid).size =
      sectorSize := by
    rw [size_overwrite (by rw [size_imageUuid, hfields]; decide), hfields]
  rw [superblock, beNat_overwrite_of_apart, beNat_overwrite_of_apart]
  · rw [size_imageUuid, hfields]
    decide
  · rw [size_imageUuid]
    omega
  · rw [size_imageLabel, huuid]
    decide
  · rw [size_imageLabel]
    omega

/-! ## The sector as it is read -/

/-- The region starts with the superblock. -/
def Heads (o : ImageOptions) (root : Nat) (region : ByteArray) : Prop :=
  sectorSize ≤ region.size ∧ ∀ i < sectorSize, byteAt region i = byteAt (o.superblock root) i

variable {region : ByteArray}

theorem Heads.beNat_eq (h : o.Heads root region) {f : Field}
    (hf : f ∈ o.superblockFields root)
    (ho : f.stop ≤ 32 ∨ (48 ≤ f.offset ∧ f.stop ≤ 108) ∨ 112 ≤ f.offset) :
    beNat region f.offset f.width = f.value % 256 ^ f.width := by
  have hlaid := o.laid_superblockFields root
  have hstop := (hlaid.bounds f hf).2
  rw [Field.stop] at hstop ho
  rw [← beNat_blockOf (fun f hf => (hlaid.bounds f hf).2) hlaid.pairwise hf,
    ← beNat_superblock root ho]
  apply beNat_congr
  intro i hi
  exact h.2 _ (by omega)

theorem Heads.beNat_eq_zero (h : o.Heads root region) {off n : Nat} (hin : off + n ≤ sectorSize)
    (ho : 112 ≤ off) (ha : ∀ f ∈ o.superblockFields root, off + n ≤ f.offset ∨ f.stop ≤ off) :
    beNat region off n = 0 := by
  rw [← beNat_blockOf_of_apart (fun f hf => ((o.laid_superblockFields root).bounds f hf).2) ha,
    ← beNat_superblock root (Or.inr (Or.inr ho))]
  apply beNat_congr
  intro i hi
  exact h.2 _ (by omega)

/-- The superblock that is read. -/
structure Reads (o : ImageOptions) (root : Nat) (sb : Superblock) : Prop where
  blockSize : sb.blockSize = UInt32.ofNat imageBlockSize
  blockLog : sb.blockLog = UInt8.ofNat imageBlockLog
  dataBlocks : sb.dataBlocks = UInt64.ofNat o.totalBlocks
  agBlocks : sb.agBlocks = UInt32.ofNat o.agBlocks
  agBlockLog : sb.agBlockLog = UInt8.ofNat o.agBlockLog
  agCount : sb.agCount = UInt32.ofNat o.agCount
  inodeSize : sb.inodeSize = UInt16.ofNat o.inodeSize
  inodesPerBlock : sb.inodesPerBlock = UInt16.ofNat o.inodesPerBlock
  inodeLog : sb.inodeLog = UInt8.ofNat o.inodeLog
  inodesPerBlockLog : sb.inodesPerBlockLog = UInt8.ofNat o.inodesPerBlockLog
  dirBlockLog : sb.dirBlockLog = UInt8.ofNat o.dirBlockLog
  rootIno : sb.rootIno = UInt64.ofNat root
  version : sb.versionNum = o.versionWord
  incompat : sb.incompatFeatures = if o.isV5 && o.ftype then ftypeBitV5 else 0
  features2 : o.isV5 = false → sb.features2 = if o.ftype then ftypeBitV4 else 0

theorem heads_superblock (o : ImageOptions) (root : Nat) : o.Heads root (o.superblock root) :=
  ⟨Nat.le_of_eq (o.size_superblock root).symm, fun _ _ => rfl⟩

/-- What starts with a region that starts with the superblock does so too. -/
theorem Heads.window (h : o.Heads root region) {len : Nat} (hlong : sectorSize ≤ len)
    (hin : len ≤ region.size) : o.Heads root (window region 0 len) := by
  refine ⟨?_, fun i hi => ?_⟩
  · rwa [size_window_of_le (by rwa [Nat.zero_add])]
  · rw [byteAt_window (Nat.lt_of_lt_of_le hi hlong), Nat.zero_add]
    exact h.2 i hi

/-- A region that starts with the superblock is read as one. -/
theorem Heads.decode_eq (h : o.Heads root region) (hw : region.size < wordLimit) :
    Superblock.decode region = .ok (Superblock.stored region) := by
  have hmagic : UInt32.ofNat (beNat region 0 4) = superblockMagic := by
    rw [h.beNat_eq (f := ⟨0, 4, superblockMagic.toNat⟩) (by simp [superblockFields]) (by decide)]
    rfl
  have hlong : superblockLength ≤ region.size := Nat.le_trans (by decide) h.1
  exact Superblock.decode_eq hw hlong hmagic

/-! ### Numbers of each width -/

theorem Heads.word8 (h : o.Heads root region) {off v : Nat}
    (hf : ⟨off, 1, v⟩ ∈ o.superblockFields root)
    (ho : off + 1 ≤ 32 ∨ (48 ≤ off ∧ off + 1 ≤ 108) ∨ 112 ≤ off) :
    UInt8.ofNat (beNat region off 1) = UInt8.ofNat v := by
  rw [h.beNat_eq hf ho]
  exact UInt8.ofNat_mod_size ..

theorem Heads.word16 (h : o.Heads root region) {off v : Nat}
    (hf : ⟨off, 2, v⟩ ∈ o.superblockFields root)
    (ho : off + 2 ≤ 32 ∨ (48 ≤ off ∧ off + 2 ≤ 108) ∨ 112 ≤ off) :
    UInt16.ofNat (beNat region off 2) = UInt16.ofNat v := by
  rw [h.beNat_eq hf ho]
  exact UInt16.ofNat_mod_size ..

theorem Heads.word32 (h : o.Heads root region) {off v : Nat}
    (hf : ⟨off, 4, v⟩ ∈ o.superblockFields root)
    (ho : off + 4 ≤ 32 ∨ (48 ≤ off ∧ off + 4 ≤ 108) ∨ 112 ≤ off) :
    UInt32.ofNat (beNat region off 4) = UInt32.ofNat v := by
  rw [h.beNat_eq hf ho]
  exact UInt32.ofNat_mod_size ..

theorem Heads.word64 (h : o.Heads root region) {off v : Nat}
    (hf : ⟨off, 8, v⟩ ∈ o.superblockFields root)
    (ho : off + 8 ≤ 32 ∨ (48 ≤ off ∧ off + 8 ≤ 108) ∨ 112 ≤ off) :
    UInt64.ofNat (beNat region off 8) = UInt64.ofNat v := by
  rw [h.beNat_eq hf ho]
  exact UInt64.ofNat_mod_size ..

theorem Heads.version (h : o.Heads root region) :
    UInt16.ofNat (beNat region 100 2) = o.versionWord := by
  rw [h.word16 (v := o.versionWord.toNat) (by simp [superblockFields]) (by omega)]
  exact UInt16.ofNat_toNat

theorem Heads.incompat (h : o.Heads root region) : (Superblock.stored region).incompatFeatures =
    if o.isV5 && o.ftype then ftypeBitV5 else 0 := by
  have hdef : (Superblock.stored region).incompatFeatures =
      if Superblock.versionOf (UInt16.ofNat (beNat region 100 2)) == 5 then
        UInt32.ofNat (beNat region 216 4) else 0 := rfl
  rw [hdef, h.version, versionWord]
  cases hv : o.isV5 with
  | false => cases o.ftype <;> rfl
  | true =>
    cases hf : o.ftype with
    | false =>
      rw [h.beNat_eq_zero (by decide) (by decide)
        (by simp [superblockFields, featureFields, hf, Field.stop])]
      rfl
    | true =>
      rw [h.word32 (v := ftypeBitV5.toNat) (by simp [superblockFields, featureFields, hv, hf])
        (by omega)]
      rfl

theorem Heads.features2 (h : o.Heads root region) (hv : o.isV5 = false) :
    UInt32.ofNat (beNat region 200 4) = if o.ftype then ftypeBitV4 else 0 := by
  cases hf : o.ftype with
  | false =>
    rw [h.beNat_eq_zero (by decide) (by decide)
      (by simp [superblockFields, featureFields, hf, Field.stop])]
    rfl
  | true =>
    rw [h.word32 (v := ftypeBitV4.toNat) (by simp [superblockFields, featureFields, hv, hf])
      (by omega)]
    rfl

/-- The superblock that is read says what the options do. -/
theorem Heads.reads (h : o.Heads root region) : o.Reads root (Superblock.stored region) where
  blockSize := h.word32 (by simp [superblockFields]) (by omega)
  blockLog := h.word8 (by simp [superblockFields]) (by omega)
  dataBlocks := h.word64 (by simp [superblockFields]) (by omega)
  agBlocks := h.word32 (by simp [superblockFields]) (by omega)
  agBlockLog := h.word8 (by simp [superblockFields]) (by omega)
  agCount := h.word32 (by simp [superblockFields]) (by omega)
  inodeSize := h.word16 (by simp [superblockFields]) (by omega)
  inodesPerBlock := h.word16 (by simp [superblockFields]) (by omega)
  inodeLog := h.word8 (by simp [superblockFields]) (by omega)
  inodesPerBlockLog := h.word8 (by simp [superblockFields]) (by omega)
  dirBlockLog := h.word8 (by simp [superblockFields]) (by omega)
  rootIno := h.word64 (by simp [superblockFields]) (by omega)
  version := h.version
  incompat := h.incompat
  features2 := h.features2

/-! ## Geometry and checks -/

variable {sb : Superblock}

theorem versionOf_versionWord (o : ImageOptions) :
    Superblock.versionOf o.versionWord = if o.isV5 then 5 else 4 := by
  rw [versionWord]
  cases o.isV5 <;> cases o.ftype <;> rfl

theorem Reads.isV5 (h : o.Reads root sb) : sb.isV5 = o.isV5 := by
  rw [Superblock.isV5, Superblock.version, h.version, versionOf_versionWord]
  cases o.isV5 with
  | true => rfl
  | false => rfl

theorem Reads.hasFtype (h : o.Reads root sb) : sb.hasFtype = o.ftype := by
  have hincompat := h.incompat
  have hfeatures := h.features2
  rw [Superblock.hasFtype, h.isV5, h.version, hincompat, versionWord]
  cases hv : o.isV5 with
  | true =>
    cases o.ftype with
    | false => rfl
    | true => rfl
  | false =>
    rw [hfeatures hv]
    cases o.ftype with
    | false => rfl
    | true => rfl

theorem Reads.dirBlockSize (h : o.Reads root sb) (ho : o.Accepted) :
    sb.blockSize.toNat <<< sb.dirBlockLog.toNat = o.dirBlockSize := by
  have hle := ho.dirBlockLog
  have hlog : (UInt8.ofNat o.dirBlockLog).toNat = o.dirBlockLog :=
    UInt8.toNat_ofNat_of_lt' (by rw [UInt8.size]; omega)
  rw [h.blockSize, h.dirBlockLog, hlog]
  rfl

theorem Reads.storedGeometry_eq (h : o.Reads root sb) (ho : o.Accepted) :
    sb.storedGeometry = o.geometry root := by
  rw [Superblock.storedGeometry, h.dirBlockSize ho, h.isV5, h.hasFtype, h.blockSize, h.blockLog,
    h.dataBlocks, h.agBlocks, h.agBlockLog, h.agCount, h.inodeSize, h.inodeLog,
    h.inodesPerBlockLog, h.dirBlockLog, h.rootIno]
  rfl

theorem Reads.shiftable (h : o.Reads root sb) (ho : o.Counted) : sb.Shiftable := by
  have hm := ho.measures_geometry root
  rw [← h.storedGeometry_eq ho.toAccepted] at hm
  have hlog := ho.agBlockLog_le
  have hdir := ho.dirBlockLog
  have hblocks := ho.agBlocks
  have hcount := ho.agCount
  obtain ⟨-, -, hlogs, hlow, hhigh⟩ := ho.inode_logs
  rw [imageBlockLog] at hlogs
  have hblockLog : sb.blockLog.toNat = 12 := hm.blockLog
  have hagLog : sb.agBlockLog.toNat = o.agBlockLog := hm.agBlockLog
  have hperLog : sb.inodesPerBlockLog.toNat = o.inodesPerBlockLog := hm.inodesPerBlockLog
  have hinodeLog : sb.inodeLog.toNat = o.inodeLog := hm.inodeLog
  have hdirLog : sb.dirBlockLog.toNat = o.dirBlockLog := hm.dirBlockLog
  have hagBlocks : sb.agBlocks.toNat = o.agBlocks := hm.agBlocks
  have hagCount : sb.agCount.toNat = o.agCount := hm.agCount
  refine ⟨by omega, ?_, by omega, by omega, ?_, ?_, by omega⟩
  · rw [hblockLog, h.blockSize]
    rfl
  · intro hzero
    rw [hzero, UInt32.toNat_zero] at hagBlocks
    omega
  · intro hzero
    rw [hzero, UInt32.toNat_zero] at hagCount
    omega

theorem Reads.checkVersion_eq (h : o.Reads root sb) : sb.checkVersion = .ok () := by
  rw [Superblock.checkVersion, Superblock.version, h.version, versionOf_versionWord, h.incompat,
    versionWord]
  cases o.isV5 <;> cases o.ftype <;> rfl

theorem Reads.checkBlockSize_eq (h : o.Reads root sb) : sb.checkBlockSize = .ok () := by
  rw [Superblock.checkBlockSize, h.blockSize, h.blockLog]
  exact (if_neg (by decide +kernel)).trans (if_neg (by decide))

theorem Reads.checkInodeSize_eq (h : o.Reads root sb) (ho : o.Accepted) :
    sb.checkInodeSize = .ok () := by
  rw [Superblock.checkInodeSize, h.blockSize, h.inodeSize, h.inodesPerBlock, h.inodeLog,
    h.inodesPerBlockLog, ImageOptions.inodesPerBlock, ImageOptions.inodesPerBlockLog]
  rcases ho.inode_cases with ⟨hs, hl⟩ | ⟨hs, hl⟩ | ⟨hs, hl⟩ | ⟨hs, hl⟩
  · rw [hs, hl]
    exact (if_neg (by decide)).trans (if_neg (by decide))
  · rw [hs, hl]
    exact (if_neg (by decide)).trans (if_neg (by decide))
  · rw [hs, hl]
    exact (if_neg (by decide)).trans (if_neg (by decide))
  · rw [hs, hl]
    exact (if_neg (by decide)).trans (if_neg (by decide))

theorem Reads.checkGroups_eq (h : o.Reads root sb) (ho : o.Counted) :
    sb.checkGroups = .ok () := by
  have hm := ho.measures_geometry root
  rw [← h.storedGeometry_eq ho.toAccepted] at hm
  have hshift := h.shiftable ho
  have hblocks := ho.agBlocks
  have hcount := ho.agCount
  have htotal : sb.dataBlocks.toNat = o.agBlocks * o.agCount := hm.dataBlocks
  have hagBlocks : sb.agBlocks.toNat = o.agBlocks := hm.agBlocks
  have hagCount : sb.agCount.toNat = o.agCount := hm.agCount
  have hagLog : sb.agBlockLog.toNat = o.agBlockLog := hm.agBlockLog
  have hpos : 0 < o.agBlocks * o.agCount := Nat.mul_pos (by omega) (by omega)
  have hdata : (sb.dataBlocks == 0) = false := by
    rw [beq_eq_false_iff_ne]
    intro hzero
    rw [hzero, UInt64.toNat_zero] at htotal
    omega
  rw [Superblock.checkGroups, hagBlocks, hagCount, hagLog, htotal, beq_eq_false_iff_ne.mpr
    hshift.agBlocks, beq_eq_false_iff_ne.mpr hshift.agCount, hdata]
  rw [Bool.or_self, if_neg (by decide), if_neg (fun hne => hne rfl), Bool.false_or,
    decide_eq_false (Nat.lt_irrefl _), if_neg (by decide)]

theorem Reads.checkDirBlockSize_eq (h : o.Reads root sb) (ho : o.Counted) :
    sb.checkDirBlockSize = .ok () := by
  have hdir := (h.shiftable ho).dirBlock
  rw [Superblock.checkDirBlockSize, if_neg (by omega)]

theorem Reads.validate_eq (h : o.Reads root sb) (ho : o.Counted)
    (hroot : (root % UInt64.size) >>> o.inodeBits < o.agCount) : sb.validate = .ok () := by
  have hm := ho.measures_geometry root
  rw [← h.storedGeometry_eq ho.toAccepted] at hm
  have hbits := (h.shiftable ho).inodeBits
  have hagLog : sb.agBlockLog.toNat = o.agBlockLog := hm.agBlockLog
  have hperLog : sb.inodesPerBlockLog.toNat = o.inodesPerBlockLog := hm.inodesPerBlockLog
  have hagCount : sb.agCount.toNat = o.agCount := hm.agCount
  have hino : sb.rootIno.toNat = root % UInt64.size := by
    rw [h.rootIno]
    exact UInt64.toNat_ofNat'
  have hcheck : sb.checkRoot = .ok () := by
    rw [Superblock.checkRoot, hino, hagCount, if_neg]
    rw [Bool.or_eq_true, decide_eq_true_eq, decide_eq_true_eq, hagLog, hperLog, ← inodeBits]
    rw [hagLog, hperLog, ← inodeBits] at hbits
    omega
  rw [Superblock.validate, h.checkVersion_eq, ok_bind, h.checkBlockSize_eq, ok_bind,
    h.checkInodeSize_eq ho.toAccepted, ok_bind, h.checkGroups_eq ho, ok_bind,
    h.checkDirBlockSize_eq ho, ok_bind, hcheck]

end ImageOptions

/-! ## Mounting -/

namespace Volume

/-- A device that starts with the superblock and is as long as it says is mounted, if the root's
number names a group of the volume or the superblock is taken as it stands. -/
theorem mount_of_heads {o : ImageOptions} {root : Nat} {dev : Device} {options : MountOptions}
    (ho : o.InMemory) (hlog : dev.blockSize = imageBlockSize)
    (hsize : dev.bytes.size = o.totalBlocks * imageBlockSize)
    (hheads : o.Heads root dev.bytes)
    (hroot : options.skipValidation = false →
      (root % UInt64.size) >>> o.inodeBits < o.agCount) :
    ∃ v, mount dev options = .ok v ∧ v.device = dev ∧ v.geometry = o.geometry root ∧
      v.cacheSlots = options.cacheSlots := by
  have htotal := ho.totalBlocks_lt
  have hpos := ho.totalBlocks_pos
  have hsized : dev.Sized := by
    rw [Device.Sized, hsize, imageBlockSize, wordLimit, UInt64.size]
    omega
  have hdevBlocks : dev.blockCount = o.totalBlocks := by
    rw [Device.blockCount, hsize, hlog, imageBlockSize]
    omega
  have hblock : (dev.block 0).size = imageBlockSize := by
    rw [Device.size_block (by omega), hlog]
  have hfirst : o.Heads root (dev.block 0) := by
    rw [Device.block, Device.span, hlog, Nat.zero_mul]
    refine hheads.window (by decide) ?_
    rw [hsize, imageBlockSize]
    omega
  have hreads := hfirst.reads
  have hmeasures := ho.measures_geometry root
  have hread : Superblock.read (dev.block 0) = .ok (Superblock.stored (dev.block 0)) := by
    rw [Superblock.read, hfirst.decode_eq (by rw [hblock]; decide), mapError_ok]
  refine ⟨{ device := dev, geometry := o.geometry root,
            superblock := Superblock.stored (dev.block 0), cacheSlots := options.cacheSlots },
    Mounted.mount_eq hsized ?_, rfl, rfl, rfl⟩
  refine ⟨rfl, rfl, by omega, hread, ?_, rfl, hlog, ?_, ?_⟩
  · exact Superblock.geometry_eq_ok.mpr
      ⟨hreads.shiftable ho.toCounted, (hreads.storedGeometry_eq ho.toAccepted).symm⟩
  · exact fun hskip => hreads.validate_eq ho.toCounted (hroot hskip)
  · exact fun _ => Nat.le_of_eq (hmeasures.dataBlocks.trans hdevBlocks.symm)

end Volume

end XfsVolume
