import XfsVolume.Proofs.Image.HandedOut
import XfsVolume.Proofs.Image.InodeOnMedium

/-!
# The geometry of a finished volume

A finished volume starts with its superblock, and a reader derives a geometry from it that repeats
what the volume was laid out from, with a logarithm beside every size. The superblock passes every
check, however many groups there are and of whatever length, because its root is an inode that was
handed out, whose number names a group of the volume. An address that was handed out names for the
reader the block that the builder writes to.
-/

namespace XfsVolume

namespace ImageOptions

variable {o : ImageOptions} {root : Nat} {geo : Geometry}

/-- The geometry has the measures of the options and the given root, and each of its logarithms is
that of a size: groups are rounded up to a power of two, all else is one. -/
structure Describes (o : ImageOptions) (root : Nat) (geo : Geometry) : Prop
    extends o.Measures geo where
  rootIno : geo.rootIno = UInt64.ofNat root
  blockPower : geo.blockSize.toNat = 2 ^ geo.blockLog.toNat
  groupPower : geo.agBlocks.toNat ≤ 2 ^ geo.agBlockLog.toNat ∧
    2 ^ geo.agBlockLog.toNat < 2 * geo.agBlocks.toNat
  inodePower : geo.inodeSize.toNat = 2 ^ geo.inodeLog.toNat
  inodesFill : geo.inodeLog.toNat + geo.inodesPerBlockLog.toNat = geo.blockLog.toNat
  dirPower : geo.dirBlockSize.toNat = geo.blockSize.toNat * 2 ^ geo.dirBlockLog.toNat

theorem Counted.describes (ho : o.Counted) (root : Nat) : o.Describes root (o.geometry root) := by
  have hm := ho.measures_geometry root
  obtain ⟨hsize, -, hlogs, -, -⟩ := ho.inode_logs
  refine ⟨hm, rfl, ?_, ?_, ?_, ?_, ?_⟩
  · rw [hm.blockSize, hm.blockLog]
    rfl
  · rw [hm.agBlocks, hm.agBlockLog]
    exact ⟨o.agBlocks_le, ho.two_pow_agBlockLog_lt⟩
  · rw [hm.inodeSize, hm.inodeLog]
    exact hsize
  · rw [hm.inodeLog, hm.inodesPerBlockLog, hm.blockLog]
    exact hlogs
  · rw [hm.dirBlockSize, hm.blockSize, hm.dirBlockLog, ← blocksPerDirBlock_eq, Nat.mul_comm]
    exact o.dirBlockSize_eq

theorem Counted.decode_superblock (ho : o.Counted) (root : Nat) :
    ∃ sb, Superblock.decode (o.superblock root) = .ok sb ∧ o.Reads root sb ∧
      sb.geometry = .ok (o.geometry root) := by
  have hheads := heads_superblock o root
  have hreads := hheads.reads
  refine ⟨_, hheads.decode_eq ?_, hreads, ?_⟩
  · rw [size_superblock]
    decide
  · exact Superblock.geometry_eq_ok.mpr
      ⟨hreads.shiftable ho, (hreads.storedGeometry_eq ho.toAccepted).symm⟩

theorem Slot.group_of_word {ino ag agBlock slot : Nat} (h : o.Slot ino ag agBlock slot)
    (ho : o.Accepted) : (ino % UInt64.size) >>> o.inodeBits < o.agCount := by
  obtain ⟨hag, -⟩ := h.parts ho
  have hgroup := h.group
  rw [Nat.shiftRight_eq_div_pow] at hag ⊢
  have hword : ino % UInt64.size / 2 ^ o.inodeBits ≤ ino / 2 ^ o.inodeBits :=
    Nat.div_le_div_right (Nat.mod_le _ _)
  omega

theorem Run.deviceBlock_add {address count ag agBlock k : Nat}
    (h : o.Run address count ag agBlock) (hm : o.Measures geo) (hk : k < count) :
    ∃ block, geo.deviceBlock (address + k) = .ok block ∧
      block * imageBlockSize = o.blockOffset (address + k) := by
  have hone : o.Run (address + k) 1 ag (agBlock + k) := h.part hk
  exact ⟨_, hone.deviceBlock hm Nat.one_pos, (hone.blockOffset_eq Nat.one_pos).symm⟩

end ImageOptions

namespace Builder

open BuildM

variable {b : Builder} {record : List (BuildStep × List Grant)} {root : Nat}

/-- **Superblock round trip.** Whatever steps are taken on an empty volume, if the root is an inode
that they handed out, the volume is finished and starts with a superblock that is read, passes every
check and has a geometry that describes the options. Every block that was handed out on the way is
found by its address where the builder has it. -/
theorem superblock_roundTrip {o : ImageOptions} {made : Builder} (hmade : ofOptions o = .ok made)
    (hblocks : o.agBlocks < 2 ^ 32) (hcount : o.agCount < 2 ^ 32)
    (hrecord : made.Records record b) (hreserved : .slot root ∈ rooms record)
    (hroot : b.root = some root) :
    ∃ image left, Gives finish b image left ∧ window image 0 sectorSize = o.superblock root ∧
      ∃ sb geo, Superblock.decode (o.superblock root) = .ok sb ∧ sb.validate = .ok () ∧
        sb.geometry = .ok geo ∧ o.Describes root geo ∧
        geo.rootIno.toNat = root ∧
        ∀ {address count}, .blocks address count ∈ rooms record → ∀ k < count,
          ∃ block, geo.deviceBlock (address + k) = .ok block ∧
            block * imageBlockSize = o.blockOffset (address + k) := by
  obtain ⟨haccepted, hlen, rfl⟩ := ofOptions_eq_ok.mp hmade
  have ho : o.Counted := ⟨haccepted, hblocks, hcount⟩
  have hempty := sound_empty haccepted
  have hb := hrecord.sound hempty
  have hgranted := hrecord.granted hempty.blank
  have hoptions : b.options = o := hgranted.options
  have hnamed : ∀ g ∈ rooms record, g.Named o := hgranted.named
  obtain ⟨ag, agBlock, index, hslot⟩ := hnamed _ hreserved
  obtain ⟨sb, hdecode, hreads, hgeometry⟩ := ho.decode_superblock root
  have hdescribes := ho.describes root
  obtain ⟨left, hfinish⟩ := gives_finish hroot
  refine ⟨_, left, hfinish, ?_, sb, _, hdecode,
    hreads.validate_eq ho (hslot.group_of_word haccepted), hgeometry, hdescribes, ?_,
    fun hin k hk => ?_⟩
  · obtain ⟨hin, hlong, hsame⟩ := heads_finished hb root
    rw [hoptions] at hsame hlong ⊢
    have hwindow := size_window_of_le (show 0 + sectorSize ≤ _ by rwa [Nat.zero_add])
    refine bytes_ext (hwindow.trans (o.size_superblock root).symm) fun i hi => ?_
    rw [hwindow] at hi
    rw [byteAt_window hi, Nat.zero_add, hsame i hi]
  · have hlt := hslot.ino_lt ⟨ho, hlen⟩
    rw [hdescribes.rootIno]
    exact UInt64.toNat_ofNat_of_lt' (by rw [UInt64.size]; omega)
  · obtain ⟨ag, agBlock, hrun⟩ := hnamed _ hin (Nat.zero_lt_of_lt hk)
    exact hrun.deviceBlock_add hdescribes.toMeasures hk

/-- Three blocks of a small volume, and its root. -/
theorem superblock_roundTrip_small : ∃ (o : ImageOptions) (b : Builder) (image : ByteArray)
    (left : Builder), o = { agBlocks := 16, agCount := 1 } ∧
    Gives finish b image left ∧ window image 0 sectorSize = o.superblock 8 ∧
    ∃ sb geo, Superblock.decode (o.superblock 8) = .ok sb ∧ sb.validate = .ok () ∧
      sb.geometry = .ok geo ∧ o.Describes 8 geo ∧ geo.rootIno.toNat = 8 ∧
      geo.deviceBlock 4 = .ok 4 := by
  obtain ⟨o, ho⟩ : ∃ o : ImageOptions, o = { agBlocks := 16, agCount := 1 } := ⟨_, rfl⟩
  have hmade : ofOptions o = .ok (Builder.empty o) := by
    subst ho
    rfl
  obtain ⟨mid, hmid, hgives, -, -⟩ := gives_reserve_small ho
  have hreserve : Gives (reserveIn 0) (Builder.empty o) 8 mid := hgives
  obtain ⟨left, hleft⟩ : ∃ left : Builder, left = { mid with nextBlocks := #[5] } := ⟨_, rfl⟩
  have hallocate : Gives (allocate 3) mid 2 left := by
    subst hleft hmid ho
    rfl
  have hsetRoot : Gives (setRoot 8) left () { left with root := some 8 } := rfl
  have hfirst : after (BuildStep.reserveIn 0).run (Builder.empty o) = mid := hreserve.after_bind
  have hsecond : after (BuildStep.allocate 3).run mid = left := hallocate.after_bind
  have hthird : after (BuildStep.setRoot 8).run left = { left with root := some 8 } :=
    hsetRoot.after_bind
  have hrecord : (Builder.empty o).Records
      [(.reserveIn 0, [.slot 8]), (.allocate 3, [.blocks 2 3]), (.setRoot 8, [])]
      { left with root := some 8 } := by
    refine .step (.bind (.slot hreserve) hreserve (.nothing rfl rfl rfl)) ?_
    rw [hfirst]
    refine .step (.bind (handsOut_allocate hallocate) hallocate (.nothing rfl rfl rfl)) ?_
    rw [hsecond]
    refine .step (.nothing rfl rfl rfl) ?_
    rw [hthird]
    exact .done _
  obtain ⟨image, finished, hfinish, hstart, sb, geo, hdecode, hvalid, hgeometry, hdescribes, hino,
    hblocks⟩ := superblock_roundTrip hmade (by rw [ho]; decide) (by rw [ho]; decide) hrecord
      (by simp [rooms]) rfl
  obtain ⟨block, hblock, hoffset⟩ := @hblocks 2 3 (by simp [rooms]) 2 (by decide)
  have hfourth : block = 4 := by
    have hplace : o.blockOffset (2 + 2) = 4 * imageBlockSize := by
      subst ho
      rfl
    rw [hplace] at hoffset
    exact Nat.eq_of_mul_eq_mul_right (by decide) hoffset
  rw [hfourth] at hblock
  exact ⟨o, _, image, finished, ho, hfinish, hstart, sb, geo, hdecode, hvalid, hgeometry,
    hdescribes, hino, hblock⟩

end Builder

end XfsVolume
