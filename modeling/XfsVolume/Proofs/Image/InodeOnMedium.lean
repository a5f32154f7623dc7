import XfsVolume.Proofs.Image.OnMedium

/-!
# Inodes read back

The number of an inode names its slot, and the slot holds what was written to it last. So an inode
that was written is read back, if its fork suits what it is; where the contents lie in the fork
itself, it holds them (`BuildM.inlineInode_spec`).
-/

namespace XfsVolume

namespace ImageOptions

variable {o : ImageOptions} {geo : Geometry} {ino ag agBlock slot : Nat}

/-- The place of the inode in slot `slot` of block `agBlock` of group `ag`. -/
def inodeSlot (o : ImageOptions) (ag agBlock slot : Nat) : InodeSlot where
  ag := ag
  agBlock := agBlock
  index := slot
  block := o.volumeBlock ag agBlock
  offset := slot * o.inodeSize

theorem Slot.locate_eq (h : o.Slot ino ag agBlock slot) (ho : o.Accepted) (hm : o.Measures geo) :
    geo.locate ino = .ok (o.inodeSlot ag agBlock slot) := by
  obtain ⟨hag, -⟩ := h.parts ho
  obtain ⟨hblock, hindex⟩ := h.place ho
  obtain ⟨hsize, hper, -, -, -⟩ := ho.inode_logs
  have hstop := h.stop_le ho
  have hinside : (o.inodeSlot ag agBlock slot).block < o.totalBlocks :=
    volumeBlock_lt h.group h.room
  have hword : slot * o.inodeSize < wordLimit := by
    rw [imageBlockSize] at hstop
    rw [wordLimit, UInt64.size]
    omega
  have hfew : slot < UInt32.size := by
    have hpos := ho.inodeSize.1
    have hmul : slot * 1 ≤ slot * o.inodeSize := Nat.mul_le_mul_left _ (by omega)
    rw [imageBlockSize] at hstop
    rw [UInt32.size]
    omega
  have hplace : (ino % (1 <<< o.inodeBits)) >>> o.inodesPerBlockLog = agBlock := by
    rw [Nat.shiftRight_eq_div_pow, ← hper, hblock]
  have hoffset : ino % (1 <<< o.inodeBits) % (1 <<< o.inodesPerBlockLog) = slot := hindex
  have hslot : geo.inodeSlot ino = .ok (o.inodeSlot ag agBlock slot) := by
    rw [Geometry.inodeSlot, hm.inodeBits, hm.inodesPerBlockLog, hm.inodeLog, hm.agCount,
      hm.agBlocks, hm.inodeSize, hm.blockSize]
    rw [hag, hplace, hoffset, Nat.shiftLeft_eq, ← hsize, Nat.mod_eq_of_lt hword,
      if_neg (Nat.not_le.mpr h.group), if_neg (Nat.not_le.mpr h.room),
      if_neg (Nat.not_lt.mpr hstop), if_neg (Nat.not_le.mpr hfew)]
    rfl
  rw [Geometry.locate, hslot, mapError_ok, ok_bind, hm.dataBlocks, if_neg (Nat.not_le.mpr hinside)]
  rfl

/-- Groups and blocks are few enough that an inode's number leaves its top bits clear. -/
theorem Slot.ino_lt (h : o.Slot ino ag agBlock slot) (ho : o.InMemory) : ino < 2 ^ 56 := by
  obtain ⟨hag, -⟩ := h.parts ho.toAccepted
  obtain ⟨-, -, hlogs, hlow, -⟩ := ho.inode_logs
  have htotal := ho.totalBlocks_lt
  have hgroup := h.group
  have hper : 2 ^ o.inodesPerBlockLog ≤ 2 ^ 4 := by
    rw [imageBlockLog] at hlogs
    exact Nat.pow_le_pow_right (by decide) (by omega)
  have hmul : o.agCount * 2 ^ o.agBlockLog * 2 ^ o.inodesPerBlockLog ≤
      2 * o.totalBlocks * 2 ^ 4 := Nat.mul_le_mul ho.addresses_le hper
  rw [Nat.shiftRight_eq_div_pow] at hag
  rw [← hag, Nat.div_lt_iff_lt_mul (Nat.two_pow_pos _), inodeBits, Nat.pow_add,
    ← Nat.mul_assoc] at hgroup
  omega

end ImageOptions

/-! ## Forks that are accepted -/

/-- The fork of an inode is accepted if it suits the inode's kind, and has room for what the inode
counts. -/
theorem Inode.checkFork_eq_ok {inode : Inode} (hsuits : formatSuits inode.kind inode.format = true)
    (hroom : inode.format = .inline ∧ inode.size.toNat ≤ inode.fork.size ∨
      inode.format = .extents ∧ inode.extents.toNat * extentLength ≤ inode.fork.size ∨
      inode.format = .btree ∧ rootHeaderLength + 16 ≤ inode.fork.size) :
    inode.checkFork = .ok () := by
  have hknown : (inode.kind == FileKind.unknown) = false := by
    rw [beq_eq_false_iff_ne]
    intro hkind
    rw [hkind] at hsuits
    cases hsuits
  have hbits : (inode.kindBits == 0) = false := by
    rw [beq_eq_false_iff_ne]
    intro hzero
    have hkind : inode.kind = .unknown := by
      rw [kindBits] at hzero
      rw [kind, FileKind.ofMode, hzero]
      rfl
    rw [hkind] at hsuits
    cases hsuits
  have hflaw : inode.forkFlaw? = none := by
    rw [forkFlaw?, hbits, hknown, hsuits]
    rcases hroom with ⟨hformat, hroom⟩ | ⟨hformat, hroom⟩ | ⟨hformat, hroom⟩ <;> rw [hformat]
    · exact if_neg (Nat.not_lt.mpr hroom)
    · exact if_neg (Nat.not_lt.mpr hroom)
    · exact if_neg (Nat.not_lt.mpr hroom)
  rw [checkFork, hflaw]

namespace Medium

variable {m : Medium} {b : Builder} {spare : Nat → Prop} {ino ag agBlock slot : Nat}
  {data : ByteArray}

theorem Keeps.readSlot_eq (h : m.Keeps spare b) (hslot : b.options.Slot ino ag agBlock slot)
    (hsize : data.size = b.options.inodeSize)
    (hown : ∀ {i}, b.options.InSlot ino i → b.Owns i ∧ ¬ spare i)
    (hdata : ∀ i < data.size, byteAt b.image (b.options.inodeOffset ino + i) = byteAt data i) :
    m.readSlot ino (b.options.inodeSlot ag agBlock slot) = .ok data := by
  have ho := h.inMemory.toAccepted
  have hstop := hslot.stop_le ho
  have hoffset := hslot.inodeOffset_eq ho
  have hinside : b.options.volumeBlock ag agBlock < m.device.blockCount := by
    rw [h.blockCount]
    exact ImageOptions.volumeBlock_lt hslot.group hslot.room
  have hblock : (m.device.block (b.options.volumeBlock ag agBlock)).size = imageBlockSize := by
    rw [Device.size_block hinside, h.blockSize]
  have hwindow : window (m.device.block (b.options.volumeBlock ag agBlock))
      (slot * b.options.inodeSize) b.options.inodeSize = data := by
    apply bytes_ext
    · rw [size_window_of_le (by rwa [hblock]), hsize]
    · intro i hi
      rw [size_window_of_le (by rwa [hblock])] at hi
      obtain ⟨hhanded, hkept⟩ :=
        hown (i := b.options.inodeOffset ino + i) ⟨Nat.le_add_right _ _, Nat.add_lt_add_left hi _⟩
      rw [← hdata i (by omega), ← h.keeps hhanded hkept, byteAt_window hi, Device.block,
        Device.span, h.blockSize, byteAt_window (by omega), hoffset, Nat.add_assoc]
  rw [readSlot, ImageOptions.inodeSlot]
  dsimp only
  rw [if_neg (Nat.not_le.mpr hinside), readBlock_eq h.sized hinside, ok_bind, h.measures.inodeSize,
    hblock, if_neg (Nat.not_lt.mpr hstop), hwindow]
  rfl

end Medium

namespace BuildM

open Builder

variable {b b' : Builder} {m : Medium} {spare : Nat → Prop} {ino : Nat} {draft : InodeDraft}
  {u : Unit}

/-- What writing an inode does to the volume. -/
theorem gives_writeInode : Gives (writeInode ino draft) b u b' ↔
    draft.fork.size ≤ b.options.literalLength ∧
      b.options.inodeOffset ino + b.options.inodeSize ≤ b.image.size ∧
      b' = { b with
        image := overwrite b.image (b.options.inodeOffset ino) (draft.encode b.options ino)
        modes := (ino, draft.mode) :: b.modes } := by
  rw [writeInode, gives_options_bind, gives_guard, Nat.not_lt]
  refine and_congr_right fun _ => ⟨fun h => ?_, ?_⟩
  · obtain ⟨c, mid, hget, h⟩ := gives_bind.mp h
    obtain ⟨rfl, rfl⟩ := gives_get.mp hget
    obtain ⟨hin, h⟩ := gives_guard.mp h
    obtain ⟨_, written, hwrite, h⟩ := gives_bind.mp h
    obtain rfl := gives_writeAt.mp hwrite
    exact ⟨Nat.not_lt.mp hin, gives_modify.mp h⟩
  · rintro ⟨hin, rfl⟩
    refine gives_bind.mpr ⟨b, b, gives_get.mpr ⟨rfl, rfl⟩, gives_guard.mpr ⟨Nat.not_lt.mpr hin, ?_⟩⟩
    exact gives_bind.mpr ⟨(), _, gives_writeAt.mpr rfl, gives_modify.mpr rfl⟩

theorem toNat_ofNat_ino (hk : m.Keeps spare b)
    (hslot : ∃ ag agBlock slot, b.options.Slot ino ag agBlock slot) :
    (UInt64.ofNat ino).toNat = ino := by
  obtain ⟨ag, agBlock, slot, hslot⟩ := hslot
  have hlt := hslot.ino_lt hk.inMemory
  exact UInt64.toNat_ofNat_of_lt' (by rw [UInt64.size]; omega)

theorem readInode_of_gives (hb : b.Sound) (h : Gives (writeInode ino draft) b u b')
    (hk : m.Keeps spare b') (hslot : ∃ ag agBlock slot, b.options.Slot ino ag agBlock slot)
    (hown : ∀ {i}, b.options.InSlot ino i → b.Owns i ∧ ¬ spare i)
    (hcheck : (draft.decoded b.options ino).checkFork = .ok ()) :
    m.readInode ino = .ok (draft.decoded b.options ino) := by
  have ho := hb.accepted
  obtain ⟨hfork, -, hafter⟩ := gives_writeInode.mp h
  obtain ⟨ag, agBlock, slot, hslot⟩ := hslot
  have hoptions : b'.options = b.options := by rw [hafter]
  have hsize : (draft.encode b.options ino).size = b.options.inodeSize :=
    InodeDraft.size_encode ho hfork
  have hin := hslot.bytes_le ho
  rw [← hb.size, ← hsize] at hin
  have hframe : Frames (b.options.InSlot ino) (writeInode ino draft) b := frames_writeInode draft id
  have hgrows := (hframe.of_gives hb h).2
  have himage : b'.image = overwrite b.image (b.options.inodeOffset ino)
      (draft.encode b.options ino) := by rw [hafter]
  rw [← hoptions] at hslot
  have hread : m.readSlot ino (b'.options.inodeSlot ag agBlock slot) =
      .ok (draft.encode b.options ino) := by
    refine hk.readSlot_eq hslot (by rw [hsize, hoptions]) (fun hi => ?_) fun i hi => ?_
    · rw [hoptions] at hi
      exact ⟨hgrows.owns (hown hi).1, (hown hi).2⟩
    · rw [hoptions, himage, byteAt_overwrite hin,
        if_pos ⟨Nat.le_add_right _ _, Nat.add_lt_add_left hi _⟩, Nat.add_sub_cancel_left]
  rw [Medium.readInode, hslot.locate_eq hk.inMemory.toAccepted hk.measures, ok_bind, hread, ok_bind,
    InodeDraft.decode_encode ho hfork, mapError_ok, ok_bind, hcheck, ok_bind]
  rfl

/-- An inode that was written with its contents in its fork is read back, and its fork holds them. -/
theorem inlineInode_spec (hb : b.Sound) (h : Gives (writeInode ino draft) b u b')
    (hformat : draft.format = .inline) (hlength : draft.size = draft.fork.size)
    (hsuits : Inode.formatSuits (FileKind.ofMode draft.mode) .inline = true)
    (hk : m.Keeps spare b') (hslot : ∃ ag agBlock slot, b.options.Slot ino ag agBlock slot)
    (hown : ∀ {i}, b.options.InSlot ino i → b.Owns i ∧ ¬ spare i) :
    m.readInode ino = .ok (draft.decoded b.options ino) ∧
      (draft.decoded b.options ino).ino.toNat = ino ∧
      (draft.decoded b.options ino).size.toNat = draft.fork.size ∧
      draft.fork.size ≤ (draft.decoded b.options ino).fork.size ∧
      window (draft.decoded b.options ino).fork 0 draft.fork.size = draft.fork := by
  obtain ⟨hroom, -, hafter⟩ := gives_writeInode.mp h
  have hoptions : b'.options = b.options := by rw [hafter]
  have hliteral := hb.accepted.literalLength_ge.2
  have hinode := hb.accepted.inodeSize
  have hsize : (draft.decoded b.options ino).size.toNat = draft.fork.size := by
    rw [InodeDraft.toNat_size_decoded _ _ (by rw [hlength, UInt64.size]; omega), hlength]
  have hlong : draft.fork.size ≤ (draft.decoded b.options ino).fork.size := by
    rw [InodeDraft.size_fork_decoded ino hroom]
    exact hroom
  have hcheck : (draft.decoded b.options ino).checkFork = .ok () := by
    refine Inode.checkFork_eq_ok ?_ (Or.inl ⟨hformat, by rwa [hsize]⟩)
    rw [← hformat] at hsuits
    exact hsuits
  refine ⟨readInode_of_gives hb h hk hslot hown hcheck, toNat_ofNat_ino hk (by rwa [hoptions]),
    hsize, hlong, window_overwrite_self ?_⟩
  rwa [size_zeros, Nat.zero_add]

end BuildM

end XfsVolume
