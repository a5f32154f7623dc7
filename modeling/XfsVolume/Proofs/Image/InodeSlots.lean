import XfsVolume.Proofs.Geometry.Decoding
import XfsVolume.Proofs.Image.FinishedGeometry

/-!
# Inodes in their slots

The builder and the reader find the place of an inode each by shifts of their own, and find the same
place for every number that the geometry accepts, be it handed out or not. Slots are units of the
length of an inode, so that those of two numbers are apart. An inode that is written fills its slot
and is read back from it, and all other slots are left as they were.
-/

namespace XfsVolume

theorem units_apart (unit : Nat) {n n' : Nat} (h : n ≠ n') :
    n * unit + unit ≤ n' * unit ∨ n' * unit + unit ≤ n * unit := by
  rcases Nat.lt_or_gt_of_ne h with hlt | hgt
  · exact Or.inl (unit_stop_le unit hlt)
  · exact Or.inr (unit_stop_le unit hgt)

theorem window_overwrite_of_apart {dst src : ByteArray} {off off' n : Nat}
    (h : off + src.size ≤ dst.size) (ha : off' + n ≤ off ∨ off + src.size ≤ off') :
    window (overwrite dst off src) off' n = window dst off' n := by
  apply bytes_ext
  · rw [size_window, size_window, size_overwrite h]
  · intro i hi
    rw [size_window] at hi
    rw [byteAt_window (by omega), byteAt_window (by omega), byteAt_overwrite h, if_neg (by omega)]

namespace ImageOptions

variable {o : ImageOptions} {geo : Geometry} {ino other : Nat} {slot slot' : InodeSlot}

def slotOffset (slot : InodeSlot) : Nat := slot.block * imageBlockSize + slot.offset

def slotBytes (o : ImageOptions) (slot : InodeSlot) (image : ByteArray) : ByteArray :=
  window image (slotOffset slot) o.inodeSize

theorem Measures.inodeLog_le (hm : o.Measures geo) (ho : o.Accepted) : geo.inodeLog.toNat ≤ 15 := by
  obtain ⟨-, -, -, -, hhigh⟩ := ho.inode_logs
  rw [hm.inodeLog]
  omega

/-- The builder has an inode where the reader finds its slot. -/
theorem Measures.inodeOffset_eq (hm : o.Measures geo) (ho : o.Accepted)
    (h : geo.inodeSlot ino = .ok slot) : o.inodeOffset ino = slotOffset slot := by
  obtain ⟨hsize, hper, -, -, -⟩ := ho.inode_logs
  obtain ⟨has, rfl⟩ := (Geometry.inodeSlot_eq_ok (hm.inodeLog_le ho)).mp h
  obtain ⟨hplace, hnumber⟩ := Geometry.inodeNumber_eq slot.ag has.addressable has.indexable
  obtain ⟨hag, hmod⟩ := digits_eq slot.ag hplace
  obtain ⟨hblock, hindex⟩ := digits_eq slot.agBlock has.indexable
  rw [hm.inodeBits] at hag hmod hnumber
  rw [hm.inodesPerBlockLog, ← hper] at hag hmod hnumber hblock hindex
  rw [inodeOffset, Nat.shiftRight_eq_div_pow, Nat.one_shiftLeft, Nat.shiftLeft_eq, ← hsize]
  rw [hnumber, hag, hmod, hblock, hindex, slotOffset, has.block, has.offset, hm.groupBlock,
    hm.inodeLog, ← hsize]
  rfl

theorem Measures.slotOffset_eq (hm : o.Measures geo) (ho : o.Accepted) (h : geo.HasSlot slot) :
    slotOffset slot = (slot.block * o.inodesPerBlock + slot.index) * o.inodeSize ∧
      slot.index < o.inodesPerBlock ∧
      slotOffset slot + o.inodeSize ≤ o.totalBlocks * imageBlockSize := by
  obtain ⟨hsize, hper, -, -, -⟩ := ho.inode_logs
  have hoffset := h.offset
  have hindex := h.indexable
  have hin := h.inBlock
  have hblock : slot.block < o.totalBlocks := by
    have hgroup := h.group
    have hinGroup := h.inGroup
    rw [hm.agCount] at hgroup
    rw [hm.agBlocks] at hinGroup
    rw [h.block, hm.groupBlock]
    exact volumeBlock_lt hgroup hinGroup
  have hstop := unit_stop_le imageBlockSize hblock
  rw [hm.inodeLog, ← hsize] at hoffset
  rw [hm.inodesPerBlockLog, ← hper] at hindex
  rw [hm.inodeSize, hm.blockSize] at hin
  refine ⟨?_, hindex, ?_⟩
  · rw [slotOffset, hoffset, Nat.add_mul, Nat.mul_assoc, ho.inodes_fill]
  · rw [slotOffset]
    omega

theorem Measures.slots_apart (hm : o.Measures geo) (ho : o.Accepted)
    (h : geo.inodeSlot ino = .ok slot) (h' : geo.inodeSlot other = .ok slot')
    (hne : other ≠ ino) : slotOffset slot' + o.inodeSize ≤ slotOffset slot ∨
      slotOffset slot + o.inodeSize ≤ slotOffset slot' := by
  obtain ⟨has, hnumber⟩ := (Geometry.inodeSlot_eq_ok (hm.inodeLog_le ho)).mp h
  obtain ⟨has', hnumber'⟩ := (Geometry.inodeSlot_eq_ok (hm.inodeLog_le ho)).mp h'
  obtain ⟨hunit, hindex, -⟩ := hm.slotOffset_eq ho has
  obtain ⟨hunit', hindex', -⟩ := hm.slotOffset_eq ho has'
  rw [hunit, hunit']
  apply units_apart
  intro heq
  obtain ⟨hblock, hin⟩ := digits_eq slot.block hindex
  obtain ⟨hblock', hin'⟩ := digits_eq slot'.block hindex'
  rw [heq] at hblock' hin'
  have hslots : slot' = slot := by
    refine has'.eq has (hblock'.symm.trans hblock) ?_
    rw [has'.offset, has.offset, hin'.symm.trans hin]
  rw [hslots] at hnumber'
  exact hne (hnumber'.trans hnumber.symm)

end ImageOptions

/-- The inode is what the draft asks for: its numbers are the draft's, as far as words hold them,
and its fork is that of the draft, followed by zeros. -/
structure InodeDraft.ReadAs (d : InodeDraft) (o : ImageOptions) (ino : Nat) (inode : Inode) :
    Prop where
  ino : inode.ino = UInt64.ofNat ino
  mode : inode.mode = d.mode
  format : inode.format = d.format
  size : d.size < 2 ^ 64 → inode.size.toNat = d.size
  blocks : d.blocks < 2 ^ 64 → inode.blocks.toNat = d.blocks
  extents : d.extents < 2 ^ 32 → inode.extents.toNat = d.extents
  nlink : d.nlink < 2 ^ 32 → inode.nlink.toNat = d.nlink
  forkLength : inode.fork.size = o.literalLength
  fork : ∀ i < o.literalLength,
    byteAt inode.fork i = if i < d.fork.size then byteAt d.fork i else 0

theorem InodeDraft.readAs_decoded {d : InodeDraft} {o : ImageOptions} (ino : Nat)
    (hfork : d.fork.size ≤ o.literalLength) : d.ReadAs o ino (d.decoded o ino) := by
  have hroom : 0 + d.fork.size ≤ (zeros o.literalLength).size := by rwa [size_zeros, Nat.zero_add]
  refine ⟨rfl, rfl, rfl, UInt64.toNat_ofNat_of_lt', UInt64.toNat_ofNat_of_lt', fun h => ?_,
    UInt32.toNat_ofNat_of_lt', ?_, fun i _ => ?_⟩
  · exact UInt32.toNat_ofNat_of_lt' h
  · show (overwrite (zeros o.literalLength) 0 d.fork).size = _
    rw [size_overwrite hroom, size_zeros]
  · show byteAt (overwrite (zeros o.literalLength) 0 d.fork) i = _
    rw [byteAt_overwrite hroom, byteAt_zeros, Nat.zero_add, Nat.sub_zero]
    simp

namespace BuildM

open Builder ImageOptions

variable {b : Builder} {record : List (BuildStep × List Grant)} {draft : InodeDraft}
  {ino root : Nat} {slot : InodeSlot}

theorem run_writeInode_of_long (h : b.options.literalLength < draft.fork.size) :
    (writeInode ino draft).run.run b =
      (.error (.forkTooLong draft.fork.size b.options.literalLength), b) := by
  show ((if draft.fork.size > b.options.literalLength then _ else _ : BuildM Unit).run.run b) = _
  rw [if_pos h]
  rfl

/-- **Inode round trip.** Whatever steps were taken on an empty volume, an inode is written to any
number that the geometry of the superblock accepts, if its fork fits. Its slot is where the builder
writes, and decodes to what was asked for; no byte outside the slot changes, so that every other
slot decodes as before. If the fork does not fit, the volume is left as it was. -/
theorem inode_roundTrip {o : ImageOptions} {made : Builder} {sb : Superblock} {geo : Geometry}
    (hmade : ofOptions o = .ok made) (hblocks : o.agBlocks < 2 ^ 32) (hcount : o.agCount < 2 ^ 32)
    (hrecord : made.Records record b) (hsuperblock : Superblock.decode (o.superblock root) = .ok sb)
    (hgeometry : sb.geometry = .ok geo) (hslot : geo.inodeSlot ino = .ok slot) :
    slotOffset slot = o.inodeOffset ino ∧
    (draft.fork.size ≤ o.literalLength → ∃ b', Gives (writeInode ino draft) b () b' ∧
      (∃ inode, Inode.decode (o.slotBytes slot b'.image) (UInt64.ofNat ino) = .ok inode ∧
        draft.ReadAs o ino inode) ∧
      b'.image.size = b.image.size ∧
      (∀ i, i < slotOffset slot ∨ slotOffset slot + o.inodeSize ≤ i →
        byteAt b'.image i = byteAt b.image i) ∧
      ∀ {other slot'}, geo.inodeSlot other = .ok slot' → other ≠ ino →
        Inode.decode (o.slotBytes slot' b'.image) (UInt64.ofNat other) =
          Inode.decode (o.slotBytes slot' b.image) (UInt64.ofNat other)) ∧
    (o.literalLength < draft.fork.size → (writeInode ino draft).run.run b =
      (.error (.forkTooLong draft.fork.size o.literalLength), b)) := by
  obtain ⟨ho, -, rfl⟩ := ofOptions_eq_ok.mp hmade
  have hcounted : o.Counted := ⟨ho, hblocks, hcount⟩
  have hempty := sound_empty ho
  have hb := hrecord.sound hempty
  have hoptions : b.options = o := (hrecord.granted hempty.blank).options
  obtain ⟨sb', hsame, -, hgeometry'⟩ := hcounted.decode_superblock root
  obtain rfl : sb = sb' := Except.ok.inj (hsuperblock.symm.trans hsame)
  obtain rfl : geo = o.geometry root := Except.ok.inj (hgeometry.symm.trans hgeometry')
  have hm := hcounted.measures_geometry root
  have hplace := hm.inodeOffset_eq ho hslot
  have has := ((Geometry.inodeSlot_eq_ok (hm.inodeLog_le ho)).mp hslot).1
  obtain ⟨-, -, hin⟩ := hm.slotOffset_eq ho has
  refine ⟨hplace.symm, fun hfork => ?_, fun hlong => ?_⟩
  · have hsize : (draft.encode o ino).size = o.inodeSize := InodeDraft.size_encode ho hfork
    have himage : b.image.size = o.totalBlocks * imageBlockSize := by rw [hb.size, hoptions]
    rw [← himage, ← hsize] at hin
    obtain ⟨b', hgives, hafter⟩ : ∃ b', Gives (writeInode ino draft) b () b' ∧
        b'.image = overwrite b.image (slotOffset slot) (draft.encode o ino) := by
      refine ⟨_, gives_writeInode.mpr ⟨by rwa [hoptions], ?_, rfl⟩, ?_⟩
      · rwa [hoptions, hplace, ← hsize]
      · rw [hoptions, hplace]
    refine ⟨b', hgives, ⟨draft.decoded o ino, ?_, InodeDraft.readAs_decoded ino hfork⟩, ?_,
      fun i hi => ?_, fun {other slot'} hother hne => ?_⟩
    · rw [slotBytes, hafter, ← hsize, window_overwrite_self hin]
      exact InodeDraft.decode_encode ho hfork ino
    · rw [hafter, size_overwrite hin]
    · rw [hafter, byteAt_overwrite hin, if_neg (by omega)]
    · have hapart := hm.slots_apart ho hslot hother hne
      rw [slotBytes, slotBytes, hafter, window_overwrite_of_apart hin (by rwa [hsize])]
  · rw [← hoptions] at hlong ⊢
    exact run_writeInode_of_long hlong

/-- A symlink to a name of one letter. -/
def shortLink : InodeDraft where
  mode := 0xA1FF
  format := .inline
  size := 1
  blocks := 0
  extents := 0
  nlink := 1
  fork := ⟨#[97]⟩

/-- A number of a small volume that was never handed out: its slot is the first one behind the
headers. -/
theorem inode_roundTrip_free : ∃ (o : ImageOptions) (b b' : Builder) (inode : Inode),
    o = { agBlocks := 16, agCount := 1 } ∧ ofOptions o = .ok b ∧
    Gives (writeInode 8 shortLink) b () b' ∧
    Inode.decode (window b'.image 4096 512) 8 = .ok inode ∧ inode.mode = 0xA1FF ∧
    inode.size.toNat = 1 ∧ byteAt inode.fork 0 = 97 ∧ byteAt inode.fork 1 = 0 := by
  obtain ⟨o, ho⟩ : ∃ o : ImageOptions, o = { agBlocks := 16, agCount := 1 } := ⟨_, rfl⟩
  have hmade : ofOptions o = .ok (Builder.empty o) := by
    subst ho
    rfl
  obtain ⟨haccepted, -⟩ := ofOptions_eq_ok.mp hmade
  have hcounted : o.Counted := ⟨haccepted, by rw [ho]; decide, by rw [ho]; decide⟩
  obtain ⟨sb, hsuperblock, -, hgeometry⟩ := hcounted.decode_superblock 8
  have hslot : (o.geometry 8).inodeSlot 8 =
      .ok { ag := 0, agBlock := 1, index := 0, block := 1, offset := 0 } := by
    subst ho
    decide
  have hroom : shortLink.fork.size ≤ o.literalLength ∧ o.literalLength = 336 ∧
      o.inodeSize = 512 := by
    subst ho
    decide
  obtain ⟨-, hfits, -⟩ := @inode_roundTrip _ _ shortLink _ _ _ _ _ _ _ hmade
    hcounted.agBlocksLt hcounted.agCountLt (.done _) hsuperblock hgeometry hslot
  obtain ⟨b', hgives, ⟨inode, hdecode, hread⟩, -⟩ := hfits hroom.1
  rw [slotBytes, hroom.2.2] at hdecode
  have hfork := hread.fork
  rw [hroom.2.1] at hfork
  exact ⟨o, _, b', inode, ho, hmade, hgives, hdecode, hread.mode, hread.size (by decide),
    hfork 0 (by decide), hfork 1 (by decide)⟩

end BuildM

end XfsVolume
