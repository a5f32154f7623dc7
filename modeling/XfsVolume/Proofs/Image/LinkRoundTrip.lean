import XfsVolume.Proofs.Image.FileBlocks
import XfsVolume.Proofs.Image.Finished
import XfsVolume.Proofs.Image.MappedInodes

/-!
# Symlinks of finished volumes

A caller builds a volume, adds a symlink to it in one of three ways, goes on building and finishes
it. Whether the target went into the inode or into a block, with or without a header in front of it,
the reader of the finished volume gets it back; and neither side takes a target that is empty or too
long.
-/

namespace XfsVolume

/-! ## Blocks that hold a target -/

namespace BuildM

variable {o : ImageOptions} {owner : Nat} {target : ByteArray}

def linkHeader (o : ImageOptions) : Nat := if o.isV5 then linkHeaderLength else 0

theorem window_encodeTarget (h : target.size ≤ maxTargetLength) :
    window (encodeTarget o owner target) (linkHeader o) target.size = target := by
  rw [maxTargetLength] at h
  rw [encodeTarget, ← linkFields, linkHeader]
  split
  · apply window_overwrite_self
    rw [size_linkHeader, linkHeaderLength, imageBlockSize]
    omega
  · apply window_overwrite_self
    rw [size_zeros, imageBlockSize]
    omega

theorem beNat_encodeTarget (hv : o.isV5 = true) (h : target.size ≤ maxTargetLength)
    {off width v : Nat} (hf : ⟨off, width, v⟩ ∈ linkFields owner target) :
    beNat (encodeTarget o owner target) off width = v % 256 ^ width := by
  have hlaid : Field.Laid 0 imageBlockSize (linkFields owner target) :=
    (laid_linkFields owner target).mono (by decide)
  have hstop := ((laid_linkFields owner target).bounds _ hf).2
  have hblock : beNat (blockOf imageBlockSize (linkFields owner target)) off width =
      v % 256 ^ width := beNat_blockOf (fun f hf => (hlaid.bounds f hf).2) hlaid.pairwise hf
  rw [encodeTarget, if_pos hv, ← linkFields, beNat_overwrite_of_apart ?_ (Or.inl hstop), hblock]
  rw [size_linkHeader, linkHeaderLength, imageBlockSize]
  rw [maxTargetLength] at h
  omega

theorem checkLinkHeader_encodeTarget (hv : o.isV5 = true) (h : target.size ≤ maxTargetLength)
    (howner : owner < UInt64.size) :
    checkLinkHeader (encodeTarget o owner target) owner 0 target.size = .ok () := by
  have hsize := size_encodeTarget (o := o) owner h
  have hw : (encodeTarget o owner target).size < wordLimit := by
    rw [hsize]
    decide
  have hin {off n : Nat} (hle : off + n ≤ 64) : off + n ≤ (encodeTarget o owner target).size := by
    rw [hsize, imageBlockSize]
    omega
  have hword (off v : Nat) (hle : off + 4 ≤ 64) (hf : ⟨off, 4, v⟩ ∈ linkFields owner target) :
      readU32 (encodeTarget o owner target) off = .ok (UInt32.ofNat v) :=
    readU32_of_beNat hw (hin hle) (beNat_encodeTarget hv h hf)
  have hmagic := hword 0 linkMagic.toNat (by decide) (by simp [linkFields])
  have hoffset := hword 4 0 (by decide) (by simp [linkFields])
  have hcount := hword 8 target.size (by decide) (by simp [linkFields])
  have hnumber : readU64 (encodeTarget o owner target) 32 = .ok (UInt64.ofNat owner) :=
    readU64_of_beNat hw (hin (by decide)) (beNat_encodeTarget hv h (by simp [linkFields]))
  have hbytes : (UInt32.ofNat target.size).toNat = target.size := by
    rw [maxTargetLength] at h
    exact UInt32.toNat_ofNat_of_lt' (by rw [UInt32.size]; omega)
  simp only [checkLinkHeader, hmagic, hoffset, hcount, hnumber, mapError_ok, ok_bind]
  rw [UInt32.ofNat_toNat, if_neg (not_not.mpr rfl), hbytes, UInt64.toNat_ofNat_of_lt' howner]
  simp

end BuildM

/-! ## Reading a symlink -/

/-- The inode is a symlink to the target, which it holds itself or in the one block that it maps. -/
structure Medium.HoldsLink (m : Medium) (o : ImageOptions) (ino : Nat) (inode : Inode)
    (target : ByteArray) : Prop where
  read : m.readInode ino = .ok inode
  number : inode.ino.toNat = ino
  kind : inode.kind = .symlink
  size : inode.size.toNat = target.size
  length : 0 < target.size ∧ target.size ≤ maxTargetLength
  held : inode.format = .inline ∧ target.size ≤ inode.fork.size ∧
      window inode.fork 0 target.size = target ∨
    inode.format.isMapped = true ∧ ∃ address,
      m.ForkHolds inode [{ start := 0, address, count := 1, unwritten := false }] ∧
        m.Shows o address 1 (encodeTarget o ino target)

namespace Volume

variable {v : Volume} {inode : Inode} {b : Builder} {spare : Nat → Prop} {ino address : Nat}
  {target : ByteArray}

theorem readTarget_of_length (hkind : inode.isSymlink = true)
    (hlen : inode.size.toNat = 0 ∨ maxTargetLength < inode.size.toNat) :
    v.readTarget inode =
      .error (.corruptInode inode.ino.toNat (.linkLength inode.size.toNat maxTargetLength)) := by
  simp [readTarget, hkind, hlen]

theorem readTargetPieces_of_shows (hk : v.toMedium.Keeps spare b)
    (hf : v.ForkHolds inode [{ start := 0, address, count := 1, unwritten := false }])
    (hs : v.toMedium.Shows b.options address 1 (encodeTarget b.options ino target))
    (hnumber : inode.ino.toNat = ino) (hpos : 0 < target.size)
    (hlen : target.size ≤ maxTargetLength) :
    v.readTargetPieces inode 0 0 target.size = .ok [target] := by
  obtain ⟨ag, agBlock, hrun, hspan⟩ := hs
  have hv := hk.measures.isV5
  have hblock : (encodeTarget b.options ino target).size = imageBlockSize :=
    BuildM.size_encodeTarget ino hlen
  have hfirst : Extent.Holds { start := 0, address, count := 1, unwritten := false } 0 :=
    ⟨Nat.le_refl _, Nat.one_pos⟩
  have hmap := hf.mapBlock_eq hk.sized List.mem_cons_self (hk.placed hrun Nat.one_pos) hfirst
  have hinside : b.options.volumeBlock ag agBlock < v.device.blockCount := by
    rw [hk.blockCount]
    exact hrun.stop_le Nat.one_pos
  have hread : v.readBlock (b.options.volumeBlock ag agBlock) =
      .ok (encodeTarget b.options ino target) := by
    rw [Medium.readBlock_eq hk.sized hinside, Device.block, hspan]
  have hheader : v.linkHeader = BuildM.linkHeader b.options := by
    rw [linkHeader, BuildM.linkHeader, hv]
  have hroom : BuildM.linkHeader b.options ≤ linkHeaderLength := by
    rw [BuildM.linkHeader]
    split
    · exact Nat.le_refl _
    · exact Nat.zero_le _
  have hcount : min target.size (imageBlockSize - BuildM.linkHeader b.options) = target.size := by
    rw [linkHeaderLength] at hroom
    rw [maxTargetLength] at hlen
    rw [imageBlockSize]
    omega
  have howner : ino < UInt64.size := hnumber ▸ inode.ino.toNat_lt
  rw [readTargetPieces, dif_neg (Nat.ne_of_gt hpos), hmap]
  dsimp only
  rw [mapError_ok, ok_bind]
  dsimp only
  rw [hk.measures.groupBlock, Nat.sub_zero, Nat.add_zero, hread, ok_bind, hheader, hblock, hcount,
    dif_neg (Nat.ne_of_gt hpos), hnumber, BuildM.window_encodeTarget hlen, Nat.sub_self]
  rw [readTargetPieces, dif_pos rfl, hv]
  cases hversion : b.options.isV5 with
  | false => rfl
  | true =>
    rw [BuildM.checkLinkHeader_encodeTarget hversion hlen howner]
    rfl

theorem readLink_of_holds (hk : v.toMedium.Keeps spare b)
    (h : v.toMedium.HoldsLink b.options ino inode target) : v.readLink ino = .ok target := by
  obtain ⟨hpos, hlen⟩ := h.length
  have hlink : inode.isSymlink = true := by
    rw [Inode.isSymlink, h.kind]
    rfl
  have hlength : (decide (target.size = 0) || decide (target.size > maxTargetLength)) = false := by
    rw [Bool.or_eq_false_iff, decide_eq_false_iff_not, decide_eq_false_iff_not]
    omega
  rw [readLink, h.read, ok_bind]
  rcases h.held with ⟨hformat, hroom, hfork⟩ | ⟨hmapped, address, hf, hs⟩
  · have hlong : ¬ target.size > inode.fork.size := Nat.not_lt.mpr hroom
    simp only [readTarget, hlink, h.size, hlength, hformat, hlong, hfork]
    rfl
  · have hpieces := readTargetPieces_of_shows hk hf hs h.number hpos hlen
    have hjoined : joinBytes [target] = target := by
      rw [joinBytes_cons, joinBytes_nil, ByteArray.append_empty]
    have hformat : inode.format = .extents ∨ inode.format = .btree := by
      revert hmapped
      cases inode.format <;> decide
    rcases hformat with hformat | hformat
    · simp only [readTarget, hlink, h.size, hlength, hformat, hpieces, ok_bind, hjoined]
      rfl
    · simp only [readTarget, hlink, h.size, hlength, hformat, hpieces, ok_bind, hjoined]
      rfl

end Volume

/-! ## Writing a symlink -/

/-- A symlink is added where it fits, or to its inode, or to a block, as the caller asks. -/
inductive LinkForm
  | fitting
  | inline
  | block

def LinkForm.add (target : ByteArray) : LinkForm → BuildM Nat
  | fitting => BuildM.addLink target
  | inline => BuildM.addInlineLink target
  | block => BuildM.addBlockLink target

namespace BuildM

open Builder

variable {b b' : Builder} {m : Medium} {spare : Nat → Prop} {ino : Nat} {target : ByteArray}
  {form : LinkForm}

theorem kind_linkMode : FileKind.ofMode (modeOf .symlink linkPermissions) = .symlink := by
  decide

def linkDraft (format : ForkFormat) (size blocks extents : Nat) (fork : ByteArray) :
    InodeDraft where
  mode := modeOf .symlink linkPermissions
  format := format
  size := size
  blocks := blocks
  extents := extents
  nlink := 1
  fork := fork

theorem run_checkTarget_bind {f : Unit → BuildM Nat}
    (h : target.size = 0 ∨ maxTargetLength < target.size) :
    (checkTarget target >>= f).run.run b = (.error (.targetLength target.size), b) := by
  have hbad : (decide (target.size = 0) || decide (target.size > maxTargetLength)) = true := by
    rw [Bool.or_eq_true, decide_eq_true_eq, decide_eq_true_eq]
    exact h
  rw [run_bind, checkTarget, if_pos hbad]
  rfl

theorem gives_checkTarget_bind {f : Unit → BuildM Nat} :
    Gives (checkTarget target >>= f) b ino b' ↔
      (0 < target.size ∧ target.size ≤ maxTargetLength) ∧ Gives (f ()) b ino b' := by
  have hok : (decide (target.size = 0) || decide (target.size > maxTargetLength)) = true ↔
      ¬ (0 < target.size ∧ target.size ≤ maxTargetLength) := by
    rw [Bool.or_eq_true, decide_eq_true_eq, decide_eq_true_eq]
    omega
  rw [checkTarget]
  split
  · rename_i hbad
    have hnot := hok.mp hbad
    simp [hnot]
  · rename_i hgood
    have hlength := not_not.mp (mt hok.mpr hgood)
    simp [hlength]

theorem run_add_of_length (form : LinkForm) (h : target.size = 0 ∨ maxTargetLength < target.size) :
    (form.add target).run.run b = (.error (.targetLength target.size), b) := by
  have hinline : (addInlineLink target).run.run b = (.error (.targetLength target.size), b) :=
    run_checkTarget_bind h
  have hblock : (addBlockLink target).run.run b = (.error (.targetLength target.size), b) :=
    run_checkTarget_bind h
  cases form with
  | fitting =>
    show ((if target.size ≤ b.options.literalLength then addInlineLink target
      else addBlockLink target).run.run b) = _
    split
    · exact hinline
    · exact hblock
  | inline => exact hinline
  | block => exact hblock

theorem size_linkDraft {o : ImageOptions} {format : ForkFormat} {blocks extents : Nat}
    {fork : ByteArray} (h : target.size ≤ maxTargetLength) :
    ((linkDraft format target.size blocks extents fork).decoded o ino).size.toNat =
      target.size := by
  rw [maxTargetLength] at h
  exact InodeDraft.toNat_size_decoded _ _ (show target.size < UInt64.size by rw [UInt64.size]; omega)

theorem addInlineLink_spec (hb : b.Sound) (h : Gives (addInlineLink target) b ino b')
    (hk : m.Keeps spare b') (hs : ∀ {i}, spare i → b.Owns i) :
    ∃ inode, m.HoldsLink b.options ino inode target := by
  obtain ⟨hlength, h⟩ := gives_checkTarget_bind.mp h
  obtain ⟨slot, reserved, hreserve, h⟩ := gives_bind.mp h
  obtain ⟨u, written, hwrite, h⟩ := gives_bind.mp h
  obtain ⟨rfl, rfl⟩ := gives_pure.mp h
  have hslot := gainedSlot_of_gives hreserve hb
  obtain ⟨hplace, hown⟩ := slot_of_gained hslot (.refl reserved) hs
  obtain ⟨hread, hnumber, hsize, hlong, hfork⟩ := inlineInode_spec hslot.sound hwrite rfl rfl
    (by rw [kind_linkMode]; rfl) hk hplace hown
  exact ⟨_, hread, hnumber, kind_linkMode, hsize, hlength, Or.inl ⟨rfl, hlong, hfork⟩⟩

theorem inOrder_block {address ag agBlock : Nat} (hk : m.Keeps spare b)
    (hrun : b.options.Run address 1 ag agBlock) :
    InOrder [{ start := 0, address, count := 1, unwritten := false }] := by
  refine ⟨fun e he => ?_, fun e he => ?_, List.pairwise_singleton _ _⟩
  · obtain rfl := List.mem_singleton.mp he
    exact ⟨Nat.two_pow_pos _, hk.inMemory.address_lt hrun Nat.one_pos,
      show 1 < 2 ^ countBits by decide⟩
  · obtain rfl := List.mem_singleton.mp he
    exact Nat.one_pos

theorem addBlockLink_spec (hb : b.Sound) (h : Gives (addBlockLink target) b ino b')
    (hk : m.Keeps spare b') (hs : ∀ {i}, spare i → b.Owns i) :
    ∃ inode, m.HoldsLink b.options ino inode target := by
  obtain ⟨hlength, h⟩ := gives_checkTarget_bind.mp h
  rw [gives_options_bind] at h
  obtain ⟨slot, reserved, hreserve, h⟩ := gives_bind.mp h
  obtain ⟨address, mid, htake, h⟩ := gives_bind.mp h
  obtain ⟨u, placed, hfill, h⟩ := gives_bind.mp h
  obtain ⟨fork, left, hfork, h⟩ := gives_bind.mp h
  obtain ⟨u', written, hwrite, h⟩ := gives_bind.mp h
  obtain ⟨rfl, rfl⟩ := gives_pure.mp h
  have hslot := gainedSlot_of_gives hreserve hb
  have hspared {i : Nat} (hi : spare i ∨ b.options.InSlot ino i) := spared_of_gained hslot hs hi
  have hdata : (encodeTarget b.options ino target).size = 1 * imageBlockSize := by
    rw [size_encodeTarget ino hlength.2, Nat.one_mul]
  have hstored := stored_of_gives hslot.sound Nat.one_pos htake hfill hdata
  have hoptions : placed.options = b.options := hstored.options.trans hslot.options
  obtain ⟨hplace, hown⟩ := slot_of_gained hslot hstored.grows hs
  obtain ⟨-, hkPlaced⟩ := keeps_of_writeMapped hstored.sound hfork hwrite hk
  rw [hoptions] at hkPlaced
  obtain ⟨ag, agBlock, hrun⟩ := hstored.run
  have hshows := hstored.shows hkPlaced hspared
  rw [← hstored.options] at hrun
  rw [hslot.options] at hshows
  obtain ⟨hread, hholds, -⟩ := mappedInode_spec hstored.sound (inOrder_block hkPlaced hrun)
    (show 1 < UInt32.size by decide) (by simp) hfork hwrite rfl rfl rfl
    (fun hmapped => by rw [kind_linkMode]; exact Bool.or_eq_true_iff.mpr (Or.inr hmapped)) hk
    (fun hi => hstored.grows.owns (hspared (Or.inl hi))) hplace hown
  have hmapped : fork.format.isMapped = true := by
    rcases format_of_writeFork hfork with ⟨hlist, -⟩ | htree
    · rw [hlist]
      rfl
    · rw [htree]
      rfl
  have hnumber := toNat_ofNat_ino hkPlaced hplace
  rw [hoptions] at hread hholds
  exact ⟨_, hread, hnumber, kind_linkMode, size_linkDraft hlength.2, hlength,
    Or.inr ⟨hmapped, address, hholds, hshows⟩⟩

theorem addLinkForm_spec (hb : b.Sound) (h : Gives (form.add target) b ino b')
    (hk : m.Keeps spare b') (hs : ∀ {i}, spare i → b.Owns i) :
    ∃ inode, m.HoldsLink b.options ino inode target := by
  cases form with
  | fitting =>
    have hfit : Gives (addLink target) b ino b' := h
    rw [addLink, gives_options_bind, gives_ite] at hfit
    split at hfit
    · exact addInlineLink_spec hb hfit hk hs
    · exact addBlockLink_spec hb hfit hk hs
  | inline => exact addInlineLink_spec hb h hk hs
  | block => exact addBlockLink_spec hb h hk hs

theorem makesInode_addLinkForm (form : LinkForm) (target : ByteArray) :
    MakesInode (form.add target) := by
  cases form with
  | fitting => exact makesInode_addLink target
  | inline => exact makesInode_addInlineLink target
  | block => exact makesInode_addBlockLink target

theorem gives_addBlockLink_small : ∃ b,
    Gives (addBlockLink ⟨#[47, 97]⟩) (Builder.empty { agBlocks := 16, agCount := 1 }) 8 b := by
  obtain ⟨o, ho⟩ : ∃ o : ImageOptions, o = { agBlocks := 16, agCount := 1 } := ⟨_, rfl⟩
  rw [← ho]
  obtain ⟨mid, hmid, hreserve, hoptions, hsound⟩ := gives_reserve_small ho
  obtain ⟨taken, htake⟩ : ∃ taken, Gives (allocate 1) mid 2 taken := by
    subst hmid ho
    exact ⟨_, rfl⟩
  obtain ⟨placed, hfill⟩ : ∃ placed,
      Gives (writeBlocks 2 (encodeTarget o 8 ⟨#[47, 97]⟩)) taken () placed :=
    ⟨_, gives_writeBlocks.mpr rfl⟩
  have hdata : (encodeTarget o 8 ⟨#[47, 97]⟩).size = 1 * imageBlockSize := by
    rw [size_encodeTarget 8 (by decide), Nat.one_mul]
  have hstored := stored_of_gives hsound Nat.one_pos htake hfill hdata
  have hplaced : placed.options = o := hstored.options.trans hoptions
  have hroom : 1 * 16 ≤ o.literalLength ∧
      o.inodeOffset 8 + o.inodeSize ≤ o.totalBlocks * imageBlockSize := by
    subst ho
    decide
  rw [← hplaced] at hroom
  rw [← hstored.sound.size] at hroom
  refine ⟨_, gives_checkTarget_bind.mpr ⟨by decide, gives_options_bind.mpr
    (gives_bind.mpr ⟨8, mid, hreserve, gives_bind.mpr ⟨2, taken, htake,
      gives_bind.mpr ⟨(), placed, hfill, gives_bind.mpr ⟨_, placed, gives_writeFork_list hroom.1,
        gives_bind.mpr ⟨(), _, gives_writeInode.mpr ⟨hroom.1, hroom.2, rfl⟩,
          gives_pure.mpr ⟨rfl, rfl⟩⟩⟩⟩⟩⟩)⟩⟩

/-- **Symlink round trip.** A symlink of any form is added to a volume that a caller builds, after
any steps and before any others that leave it alone. However the finished volume is mounted, the
target is read as it was given. A target that is empty or too long is refused, and so is a symlink
that says it has one. -/
theorem addLink_roundTrip {o : ImageOptions} {made : Builder} (form : LinkForm)
    (target : ByteArray) (hmade : Builder.ofOptions o = .ok made) (hblocks : o.agBlocks < 2 ^ 32)
    (hcount : o.agCount < 2 ^ 32) (hsize : o.totalBlocks * imageBlockSize < 2 ^ 63) :
    (∀ {before b after left : Builder} {known known' : List Nat} {ino : Nat} {image : ByteArray}
      {options : MountOptions}, made.Reaches [] before known →
      Gives (form.add target) before ino b → b.Reaches known after known' →
      Gives finish after image left →
      ((∀ root, after.root = some root → options.skipValidation = false →
          (root % UInt64.size) >>> o.inodeBits < o.agCount) →
        ∃ v, Volume.mountBytes image options = .ok v) ∧
      ∀ v, Volume.mountBytes image options = .ok v → v.readLink ino = .ok target) ∧
    (target.size = 0 ∨ maxTargetLength < target.size → ∀ b,
      (form.add target).run.run b = (.error (.targetLength target.size), b)) ∧
    ∀ (v : Volume) (inode : Inode), inode.isSymlink = true →
      inode.size.toNat = 0 ∨ maxTargetLength < inode.size.toNat →
      v.readTarget inode =
        .error (.corruptInode inode.ino.toNat (.linkLength inode.size.toNat maxTargetLength)) := by
  refine ⟨fun hbefore hlink hafter hfinish => ?_, fun hlen b => run_add_of_length form hlen,
    fun v inode hkind hlen => Volume.readTarget_of_length hkind hlen⟩
  have hmemory : o.InMemory :=
    ⟨⟨(Builder.ofOptions_eq_ok.mp hmade).1, hblocks, hcount⟩, hsize⟩
  have hmakes := makesInode_addLinkForm form target
  obtain ⟨hsound, hoptions, hmounts, hkeeps⟩ :=
    finished_of_step hmakes hmade hmemory hbefore hlink hafter hfinish
  refine ⟨hmounts, fun v hmount => ?_⟩
  obtain ⟨spare, hk, hspare⟩ := hkeeps v hmount
  obtain ⟨inode, hholds⟩ := addLinkForm_spec hsound hlink hk hspare
  have hgrows := (Frames.of_gives (hmakes.frames (fun _ => False) _) hsound hlink).2
  rw [← hgrows.options] at hholds
  exact Volume.readLink_of_holds hk hholds

/-- The root of a volume is a symlink to `/a`, whose target lies in a block. -/
theorem addLink_roundTrip_block : ∃ image v, Volume.mountBytes image {} = .ok v ∧
    v.readLink 8 = .ok ⟨#[47, 97]⟩ := by
  obtain ⟨b, hlink⟩ := gives_addBlockLink_small
  have hmade : Builder.ofOptions { agBlocks := 16, agCount := 1 } =
      .ok (Builder.empty { agBlocks := 16, agCount := 1 }) := rfl
  have hfinish : Gives finish (after (BuildStep.setRoot 8).run b)
      (overwrite b.image 0 (b.options.superblock 8)) _ := rfl
  obtain ⟨hround, -⟩ := addLink_roundTrip .block ⟨#[47, 97]⟩ hmade (by decide) (by decide)
    (by decide)
  obtain ⟨hmounts, hreads⟩ := @hround _ _ _ _ _ _ _ _ {} .refl hlink
    (.step .refl (.setRoot 8) (by decide)) hfinish
  obtain ⟨v, hmount⟩ := hmounts fun root hroot _ => by
    cases hroot
    decide
  exact ⟨_, v, hmount, hreads v hmount⟩

end BuildM

end XfsVolume
