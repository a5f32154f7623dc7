import XfsVolume.Proofs.Image.InodeOnMedium
import XfsVolume.Proofs.Volume.CheckedReads
import XfsVolume.Proofs.Volume.History
import XfsVolume.Proofs.Volume.Runs

/-!
# Device faults of a volume

A volume that was mounted with its checks ends inside its device, and what it is asked is answered
through readers that check where they read. The one exception is a read of a file: it translates the
first block of a run and takes the others from the device as they come. The read of an extent that
runs past the end of the device ends with a fault of the device (`RunsPast`), and that is all that
can.
-/

namespace XfsVolume

namespace Volume

variable {v : Volume} {inode : Inode}

/-- A read of `remaining` bytes at `offset` comes to a run of `count` blocks from block `start` on
that ends past the device. -/
inductive RunsPast (v : Volume) (inode : Inode) (start count : Nat) :
    (offset remaining : Nat) → Prop
  | here {offset remaining : Nat} {e : Extent} {mapping : Mapping} (more : 0 < remaining)
      (found : v.findExtent inode (offset / v.device.blockSize) = .ok e)
      (written : e.unwritten = false)
      (mapped : v.mappingIn e (offset / v.device.blockSize) = .ok mapping)
      (starts : mapping.physical = start) (runs : v.runLength e offset remaining = count)
      (past : v.device.blockCount < start + count) : RunsPast v inode start count offset remaining
  | later {offset remaining : Nat} {piece : ByteArray} (more : 0 < remaining)
      (read : v.readRun inode offset remaining = .ok piece) (some : 0 < piece.size)
      (rest : RunsPast v inode start count (offset + piece.size) (remaining - piece.size)) :
      RunsPast v inode start count offset remaining

/-- A volume whose blocks are those of its device, and all of which its device has. -/
structure Checked (v : Volume) : Prop extends v.Blocked where
  inDevice : v.geometry.dataBlocks.toNat ≤ v.device.blockCount
  few : v.device.blockCount + maxRun < wordLimit

theorem Checked.backed (h : v.Checked) : v.Backed := ⟨h.sized, h.inDevice⟩

theorem Mounted.checked {dev : Device} {options : MountOptions} (hm : v.Mounted dev options)
    (hs : dev.Sized) (hchecked : options.skipValidation = false) : v.Checked where
  toBlocked := hm.blocked hs
  inDevice := by
    rw [hm.device]
    exact hm.inDevice hchecked
  few := by
    have hlimit : wordLimit = 2 ^ 64 := rfl
    have hsupported : supportedBlockSize = 4096 := rfl
    rw [Device.Sized, hlimit] at hs
    rw [hm.device, Device.blockCount, hm.blockSize, hsupported, hlimit, maxRun]
    omega

theorem Checked.readBlocks_eq_io (h : v.Checked) {start count : Nat} (hcount : 0 < count)
    (hmax : count ≤ maxRun) (hstart : start < v.device.blockCount) {f : DeviceFault} :
    v.readBlocks start count = .error (.io f) ↔
      v.device.blockCount < start + count ∧ f = .blocksPastEnd start count v.device.blockCount := by
  have hfew := h.few
  by_cases hpast : v.device.blockCount < start + count
  · have hread : v.readBlocks start count =
        .error (.io (.blocksPastEnd start count v.device.blockCount)) := by
      rw [Medium.readBlocks, Device.readBlocks, if_neg (by omega), if_neg (by omega), if_pos hpast]
      rfl
    rw [hread]
    constructor
    · intro heq
      cases heq
      exact ⟨hpast, rfl⟩
    · rintro ⟨-, rfl⟩
      rfl
  · rw [Medium.readBlocks_eq h.sized hcount (Nat.not_lt.mp hpast)]
    refine iff_of_false (noIo_ok _ f) ?_
    rintro ⟨hlt, -⟩
    exact hpast hlt

/-- A piece of a read ends with a fault of the device exactly when the run of blocks does that it
takes from a written extent. -/
theorem Checked.readRun_eq_io (h : v.Checked) {offset remaining : Nat} (hmore : 0 < remaining)
    {f : DeviceFault} : v.readRun inode offset remaining = .error (.io f) ↔
      ∃ e mapping, v.findExtent inode (offset / v.device.blockSize) = .ok e ∧
        e.unwritten = false ∧ v.mappingIn e (offset / v.device.blockSize) = .ok mapping ∧
        v.device.blockCount < mapping.physical + v.runLength e offset remaining ∧
        f = .blocksPastEnd mapping.physical (v.runLength e offset remaining)
          v.device.blockCount := by
  cases hfind : v.findExtent inode (offset / v.device.blockSize) with
  | error fault =>
    have hnoIo := h.backed.noIo_findExtent inode (offset / v.device.blockSize)
    rw [hfind] at hnoIo
    refine iff_of_false ?_ ?_
    · cases fault with
      | extentNotFound l =>
        rw [h.readRun_of_missing hfind]
        exact noIo_ok _ f
      | _ =>
        rw [← h.blockSize] at hfind
        rw [readRun_of_fault hfind nofun]
        exact hnoIo.error f
    · rintro ⟨e, mapping, hfound, -⟩
      cases hfound
  | ok e =>
    rw [h.readRun_of_found hfind]
    cases hu : e.unwritten with
    | true =>
      refine iff_of_false (noIo_ok _ f) ?_
      rintro ⟨e', mapping, hfound, hwritten, -⟩
      cases hfound
      rw [hu] at hwritten
      cases hwritten
    | false =>
      rw [if_neg Bool.false_ne_true]
      cases hmap : v.mappingIn e (offset / v.device.blockSize) with
      | error fault =>
        have hnoIo := h.backed.noIo_mappingIn e (offset / v.device.blockSize)
        rw [hmap] at hnoIo
        refine iff_of_false (hnoIo.error f) ?_
        rintro ⟨e', mapping, hfound, -, hmapped, -⟩
        cases hfound
        rw [hmap] at hmapped
        cases hmapped
      | ok mapping =>
        obtain ⟨hpos, hmax⟩ := h.runLength_bounds (Medium.covers_of_findExtent hfind) hmore
        have hread := h.readBlocks_eq_io hpos (Nat.le_min.mp hmax).2 (h.backed.physical_lt hmap)
          (f := f)
        rw [ok_bind, bind_ok_eq_error, hread]
        constructor
        · rintro ⟨hpast, hf⟩
          exact ⟨e, mapping, rfl, hu, hmap, hpast, hf⟩
        · rintro ⟨e', mapping', hfound, -, hmapped, hpast, hf⟩
          cases hfound
          cases hmap.symm.trans hmapped
          exact ⟨hpast, hf⟩

theorem Checked.runsPast_iff (h : v.Checked) {start count offset remaining : Nat}
    (hmore : 0 < remaining) : v.RunsPast inode start count offset remaining ↔
      v.readRun inode offset remaining =
          .error (.io (.blocksPastEnd start count v.device.blockCount)) ∨
        ∃ piece, v.readRun inode offset remaining = .ok piece ∧ 0 < piece.size ∧
          v.RunsPast inode start count (offset + piece.size) (remaining - piece.size) := by
  constructor
  · intro hruns
    cases hruns with
    | here _ found written mapped starts runs past =>
      subst starts runs
      exact Or.inl ((h.readRun_eq_io hmore).mpr ⟨_, _, found, written, mapped, past, rfl⟩)
    | later _ read some rest => exact Or.inr ⟨_, read, some, rest⟩
  · rintro (hrun | ⟨piece, hrun, hpos, hrest⟩)
    · obtain ⟨e, mapping, hfound, hwritten, hmapped, hpast, hf⟩ := (h.readRun_eq_io hmore).mp hrun
      cases hf
      exact .here hmore hfound hwritten hmapped rfl rfl hpast
    · exact .later hmore hrun hpos hrest

/-- A read of a mapped fork ends with a fault of the device exactly when it comes to a run that ends
past the device. -/
theorem Checked.readPieces_eq_io (h : v.Checked) {offset remaining : Nat} {f : DeviceFault} :
    v.readPieces inode offset remaining = .error (.io f) ↔
      ∃ start count, f = .blocksPastEnd start count v.device.blockCount ∧
        v.RunsPast inode start count offset remaining := by
  induction remaining using Nat.strongRecOn generalizing offset with
  | ind remaining ih =>
    rw [readPieces]
    by_cases hnone : remaining = 0
    · rw [if_pos hnone]
      refine iff_of_false (noIo_ok _ f) ?_
      rintro ⟨start, count, -, hruns⟩
      cases hruns with
      | here more => omega
      | later more => omega
    · have hmore := Nat.pos_of_ne_zero hnone
      simp only [h.runsPast_iff hmore, if_neg hnone]
      cases hrun : v.readRun inode offset remaining with
      | error fault =>
        rw [error_bind]
        constructor
        · rintro ⟨⟩
          obtain ⟨_, _, -, -, -, -, rfl⟩ := (h.readRun_eq_io hmore).mp hrun
          exact ⟨_, _, rfl, Or.inl rfl⟩
        · rintro ⟨start, count, rfl, heq | ⟨piece, heq, -⟩⟩
          · cases heq
            rfl
          · cases heq
      | ok piece =>
        simp only [ok_bind, reduceCtorEq, false_or, Except.ok.injEq, exists_eq_left', pure_eq_ok]
        by_cases hpos : 0 < piece.size
        · rw [dif_pos ⟨hpos, hmore⟩, bind_ok_eq_error, ih _ (by omega)]
          simp only [hpos, true_and]
        · rw [dif_neg fun hboth => hpos hboth.1]
          refine iff_of_false (noIo_ok _ f) ?_
          rintro ⟨start, count, -, hsome, -⟩
          exact hpos hsome

theorem Checked.readData_eq_io (h : v.Checked) {offset len : Nat} {f : DeviceFault} :
    v.readData inode offset len = .error (.io f) ↔
      inode.isDirectory = false ∧ inode.format.isMapped = true ∧
        ∃ start count, f = .blocksPastEnd start count v.device.blockCount ∧
          v.RunsPast inode start count offset (min len (inode.size.toNat - offset)) := by
  rw [readData]
  cases hdir : inode.isDirectory with
  | true =>
    refine iff_of_false (noIo_error rfl f) ?_
    rintro ⟨hfile, -⟩
    cases hfile
  | false =>
    rw [if_neg Bool.false_ne_true]
    simp only [true_and]
    by_cases hend : offset ≥ inode.size.toNat
    · rw [if_pos hend]
      refine iff_of_false (noIo_ok _ f) ?_
      rintro ⟨-, start, count, -, hruns⟩
      rw [Nat.sub_eq_zero_of_le hend, Nat.min_zero] at hruns
      cases hruns with
      | here more => cases more
      | later more => cases more
    · rw [if_neg hend]
      cases inode.format with
      | inline =>
        dsimp only
        refine iff_of_false ?_ ?_
        · split
          · exact noIo_error rfl f
          · exact noIo_ok _ f
        · rintro ⟨hmapped, -⟩
          cases hmapped
      | extents | btree =>
        simp only [ForkFormat.isMapped, true_and, pure_eq_ok, bind_ok_eq_error,
          h.readPieces_eq_io]
      | dev | uuid =>
        refine iff_of_false (noIo_error rfl f) ?_
        rintro ⟨hmapped, -⟩
        cases hmapped

theorem Checked.readContents_eq_io (h : v.Checked) {ino offset len : Nat} {f : DeviceFault} :
    v.readContents ino offset len = .error (.io f) ↔ ∃ inode start count,
      v.readInode ino = .ok inode ∧ inode.isDirectory = false ∧ inode.format.isMapped = true ∧
        v.RunsPast inode start count offset (min len (inode.size.toNat - offset)) ∧
        f = .blocksPastEnd start count v.device.blockCount := by
  rw [readContents]
  cases hinode : v.readInode ino with
  | error fault =>
    refine iff_of_false ?_ ?_
    · intro heq
      cases heq
      exact h.backed.noIo_readInode ino f hinode
    · rintro ⟨inode, start, count, hread, -⟩
      cases hread
  | ok inode =>
    rw [ok_bind, h.readData_eq_io]
    constructor
    · rintro ⟨hdir, hmapped, start, count, hf, hruns⟩
      exact ⟨inode, start, count, rfl, hdir, hmapped, hruns, hf⟩
    · rintro ⟨inode', start, count, ⟨⟩, hdir, hmapped, hruns, hf⟩
      exact ⟨hdir, hmapped, start, count, hf, hruns⟩

/-! ## Names and links -/

theorem noIo_entryKind (h : v.Checked) (ino : Nat) (recorded : FileKind) :
    NoIo (v.entryKind ino recorded) := by
  rw [entryKind]
  exact noIo_ite (noIo_ok _) (noIo_bind (h.backed.noIo_readInode ino) fun _ _ => noIo_ok _)

theorem Checked.clean_lookup (h : v.Checked) (parent : Nat) (name : Name) :
    Clean v.device (v.lookup parent name) := by
  rw [lookup]
  refine clean_bind (clean_liftM (h.backed.noIo_readInode parent)) fun dir => ?_
  refine clean_bind (h.backed.clean_lookupName dir name) fun found => ?_
  rcases found with - | ⟨ino, recorded⟩
  · exact clean_pure _
  · exact clean_bind (clean_liftM (noIo_entryKind h ino recorded)) fun kind => clean_pure _

theorem Checked.clean_nextKnown (h : v.Checked) (format : DirFormat) (dir : Inode)
    (cursor : DirCursor) : Clean v.device (v.nextKnown format dir cursor) := by
  rw [nextKnown]
  refine clean_bind (h.backed.clean_nextEntryAs format dir cursor) fun found => ?_
  rcases found with - | ⟨entry, next⟩
  · exact clean_pure _
  · exact clean_bind (clean_liftM (noIo_entryKind h _ _)) fun kind => clean_pure _

theorem Checked.clean_listAfter (h : v.Checked) (ino : Nat) (cursor : DirCursor) :
    Clean v.device (v.listAfter ino cursor) := by
  rw [listAfter]
  refine clean_bind (clean_liftM (h.backed.noIo_readInode ino)) fun dir => ?_
  refine clean_bind (clean_liftM (h.backed.noIo_dirFormat dir)) fun format => ?_
  exact Medium.clean_listFrom (h.clean_nextKnown format dir) _ _ _

theorem Checked.clean_walk (h : v.Checked) : ∀ (components : List String) (ino : Nat)
    (inode : Inode), Clean v.device (v.walk components ino inode)
  | [], _, _ => clean_pure _
  | component :: rest, _, inode => by
      rw [walk]
      refine clean_guard rfl ?_
      refine clean_bind (h.backed.clean_lookupName inode _) fun found => ?_
      rcases found with - | ⟨next, kind⟩
      · exact clean_throw rfl
      · exact clean_bind (clean_liftM (h.backed.noIo_readInode next)) fun inode =>
          h.clean_walk rest next inode

theorem Checked.noIo_readTarget (h : v.Checked) (inode : Inode) : NoIo (v.readTarget inode) :=
  noIo_iff.mpr (failsIn_readTarget h.backed.mapFaults (Medium.noIo_list inode)
    (h.backed.noIo_readMapped inode) rfl (fun _ _ _ => rfl) fun _ _ => rfl)

/-! ## Every question -/

theorem Checked.noIo_attributes (h : v.Checked) (ino : Nat) : NoIo (v.attributes ino) :=
  noIo_bind (h.backed.noIo_readInode ino) fun _ _ => noIo_ok _

theorem Checked.noIo_placeOf (h : v.Checked) (ino logical : Nat) :
    NoIo (v.placeOf ino logical) := by
  rw [placeOf]
  refine noIo_bind (h.backed.noIo_readInode ino) fun inode _ => noIo_ite (noIo_ok _) ?_
  cases hmap : v.mapBlock inode logical with
  | ok mapping => exact noIo_ok _
  | error fault =>
    cases fault with
    | io g => exact absurd hmap (h.backed.noIo_mapBlock inode logical g)
    | extentNotFound l => exact noIo_ok _
    | _ => exact noIo_error rfl

theorem Checked.clean_ask (h : v.Checked) {q : Question}
    (hq : ∀ ino offset len, q ≠ .contents ino offset len) : Clean v.device (v.ask q) := by
  have hinode (ino : Nat) := h.backed.noIo_readInode ino
  cases q with
  | format ino =>
    exact clean_liftM (noIo_bind (hinode ino) fun dir _ => h.backed.noIo_dirFormat dir)
  | lookup parent name => exact h.clean_lookup parent name
  | childAttributes parent name =>
    refine clean_bind (h.clean_lookup parent name) fun found => ?_
    rcases found with - | ⟨ino, kind⟩
    · exact clean_throw rfl
    · exact clean_liftM (h.noIo_attributes ino)
  | entryAfter ino cursor =>
    refine clean_bind (clean_liftM (hinode ino)) fun dir => ?_
    exact clean_bind (clean_liftM (h.backed.noIo_dirFormat dir)) fun format =>
      h.clean_nextKnown format dir cursor
  | listAfter ino cursor => exact h.clean_listAfter ino cursor
  | listAll ino => exact clean_bind (h.clean_listAfter ino 0) fun _ => clean_pure _
  | resolve path =>
    refine clean_guard rfl ?_
    exact clean_bind (clean_liftM (hinode v.root)) fun inode => h.clean_walk _ _ inode
  | attributes ino => exact clean_liftM (h.noIo_attributes ino)
  | place ino logical => exact clean_liftM (h.noIo_placeOf ino logical)
  | extents ino =>
    exact clean_liftM (noIo_bind (hinode ino) fun inode _ =>
      noIo_ite (h.backed.noIo_allExtents inode) (noIo_ok _))
  | contents ino offset len => exact absurd rfl (hq ino offset len)
  | target ino => exact clean_liftM (noIo_bind (hinode ino) fun inode _ => h.noIo_readTarget inode)

theorem checked_of_image {image : ByteArray} {options : MountOptions}
    (himage : image.size < wordLimit)
    (hmount : mountBytes image options = .ok v ∨
      ∃ dev : Device, dev.bytes = image ∧ mount dev options = .ok v)
    (hchecked : options.skipValidation = false) : v.Checked := by
  obtain ⟨dev, rfl, hdev⟩ : ∃ dev : Device, dev.bytes = image ∧ mount dev options = .ok v := by
    rcases hmount with hbytes | hdev
    · obtain ⟨hdevice, -⟩ := MountedOn.device_eq ⟨options, Or.inl hbytes⟩
      simp only [mountBytes, bind_eq_ok, ite_error_eq_ok, throw_bind, mapError_eq_ok] at hbytes
      obtain ⟨region, -, sb, -, size, -, -, dev, -, hmount⟩ := hbytes
      exact ⟨dev, by rw [← (parts_of_mount hmount).1, hdevice], hmount⟩
    · exact hdev
  exact (mounted_of_mount himage hdev).checked himage hchecked

/-- **Only a run that leaves the device ends with a fault of the device.** On an image that is
mounted with its checks, no inode and no question after any history is answered with a device fault,
except that the read of a file is which comes to an extent whose run of blocks ends past the device;
and the fault says so. -/
theorem answer_io_iff {image : ByteArray} {options : MountOptions} (himage : image.size < wordLimit)
    (hmount : mountBytes image options = .ok v ∨
      ∃ dev : Device, dev.bytes = image ∧ mount dev options = .ok v)
    (hchecked : options.skipValidation = false) (history : List Question) :
    (∀ ino f, v.readInode ino ≠ .error (.io f)) ∧
    ∀ (q : Question) (f : DeviceFault), v.answer (v.cacheOf history) q = .error (.io f) ↔
      ∃ ino offset len inode start count, q = .contents ino offset len ∧
        v.readInode ino = .ok inode ∧ inode.isDirectory = false ∧ inode.format.isMapped = true ∧
        v.RunsPast inode start count offset (min len (inode.size.toNat - offset)) ∧
        f = .blocksPastEnd start count v.device.blockCount := by
  have h := checked_of_image himage hmount hchecked
  refine ⟨h.backed.noIo_readInode, fun q f => ?_⟩
  rw [answer_eq_fresh]
  by_cases hq : ∃ ino offset len, q = .contents ino offset len
  · obtain ⟨ino, offset, len, rfl⟩ := hq
    show v.readContents ino offset len = _ ↔ _
    rw [h.readContents_eq_io]
    constructor
    · rintro ⟨inode, start, count, hpast⟩
      exact ⟨ino, offset, len, inode, start, count, rfl, hpast⟩
    · rintro ⟨_, _, _, inode, start, count, ⟨⟩, hpast⟩
      exact ⟨inode, start, count, hpast⟩
  · have hclean := h.clean_ask (q := q) fun ino offset len heq => hq ⟨ino, offset, len, heq⟩
    refine iff_of_false (hclean.noIo f) ?_
    rintro ⟨ino, offset, len, inode, start, count, heq, -⟩
    exact hq ⟨ino, offset, len, heq⟩

/-! ### A file whose last block lies past the device -/

def pastEndDraft : InodeDraft where
  mode := 0o100644
  format := .extents
  size := 8192
  blocks := 2
  extents := 1
  nlink := 1
  fork := (Extent.encode ⟨0, 48, 2, false⟩).toByteArray

/-- The volume of two short groups with such a file for inode 16. -/
def pastEndDevice : Device where
  bytes := overwrite shortGroupsDevice.bytes 4096 (pastEndDraft.encode shortGroups 16)
  blockSize := 4096

theorem size_pastEndDraft : (pastEndDraft.encode shortGroups 16).size = 256 :=
  InodeDraft.size_encode shortGroups_bounded.toAccepted (by decide +kernel)

theorem size_pastEndDevice : pastEndDevice.bytes.size = 34 * 4096 := by
  rw [pastEndDevice, size_overwrite]
  · exact size_shortGroupsDevice
  · rw [size_pastEndDraft, size_shortGroupsDevice]
    decide

theorem mount_pastEndDevice : ∃ v, mount pastEndDevice {} = .ok v ∧
    v.device = pastEndDevice ∧ v.geometry = shortGroups.geometry 0 := by
  have hroot : ({} : MountOptions).skipValidation = false →
      (0 % UInt64.size) >>> shortGroups.inodeBits < shortGroups.agCount := fun _ => by decide
  have hin : 4096 + (pastEndDraft.encode shortGroups 16).size ≤ shortGroupsDevice.bytes.size := by
    rw [size_pastEndDraft, size_shortGroupsDevice]
    decide
  have hheads : shortGroups.Heads 0 pastEndDevice.bytes := by
    obtain ⟨hsize, hbytes⟩ := heads_shortGroupsDevice
    refine ⟨by rw [size_pastEndDevice]; decide, fun i hi => ?_⟩
    rw [← hbytes i hi, pastEndDevice, byteAt_overwrite hin, if_neg]
    rw [sectorSize] at hi
    omega
  obtain ⟨v, hmount, hdevice, hgeo, -⟩ := mount_of_heads shortGroups_bounded.inMemory rfl
    size_pastEndDevice hheads hroot
  exact ⟨v, hmount, hdevice, hgeo⟩

def pastEnd : Inode := pastEndDraft.decoded shortGroups 16

theorem readInode_pastEnd (hdevice : v.device = pastEndDevice)
    (hgeo : v.geometry = shortGroups.geometry 0) : v.readInode 16 = .ok pastEnd := by
  have hfork : pastEndDraft.fork.size ≤ shortGroups.literalLength := by decide +kernel
  have hslot : v.geometry.locate 16 = .ok ⟨0, 1, 0, 1, 0⟩ := by
    rw [hgeo]
    decide +kernel
  have hsize : v.geometry.inodeSize.toNat = 256 := by
    rw [hgeo]
    rfl
  have hcount : v.device.blockCount = 34 := by
    rw [hdevice, Device.blockCount, size_pastEndDevice]
    rfl
  have hblockSize : v.device.blockSize = 4096 := by
    rw [hdevice]
    rfl
  have hsized : v.device.Sized := by
    rw [hdevice, Device.Sized, size_pastEndDevice]
    decide
  have hblock : v.readBlock 1 = .ok (v.device.block 1) :=
    Medium.readBlock_eq hsized (by rw [hcount]; decide)
  have hwindow : window (v.device.block 1) 0 256 = pastEndDraft.encode shortGroups 16 := by
    rw [Device.block, Device.span, window_window (by rw [hblockSize]; decide), hblockSize, hdevice,
      pastEndDevice, ← size_pastEndDraft]
    refine window_overwrite_self ?_
    rw [size_pastEndDraft, size_shortGroupsDevice]
    decide
  have hread : v.readSlot 16 ⟨0, 1, 0, 1, 0⟩ = .ok (pastEndDraft.encode shortGroups 16) := by
    have hroom : (v.device.block 1).size = 4096 := by
      rw [Device.size_block (by rw [hcount]; decide), hblockSize]
    rw [Medium.readSlot]
    dsimp only
    rw [if_neg (by rw [hcount]; decide), hblock, ok_bind, hsize, hroom, if_neg (by decide), hwindow]
    rfl
  have hcheck : pastEnd.checkFork = .ok () := by decide +kernel
  rw [Medium.readInode, hslot, ok_bind, hread, ok_bind,
    InodeDraft.decode_encode shortGroups_bounded.toAccepted hfork, mapError_ok, ok_bind]
  show (pastEnd.checkFork >>= fun _ => _) = _
  rw [hcheck]
  rfl

theorem runsPast_pastEnd (hdevice : v.device = pastEndDevice)
    (hgeo : v.geometry = shortGroups.geometry 0) : v.RunsPast pastEnd 33 2 0 8192 := by
  have hblockSize : v.device.blockSize = 4096 := by
    rw [hdevice]
    rfl
  have hinline : pastEnd.inlineExtents = .ok [⟨0, 48, 2, false⟩] := by decide +kernel
  have hformat : pastEnd.format = .extents := rfl
  have hfind : v.findExtent pastEnd (0 / v.device.blockSize) = .ok ⟨0, 48, 2, false⟩ := by
    rw [Nat.zero_div, Medium.findExtent, hformat]
    simp only [hinline, ok_bind]
    rfl
  have hnames : v.geometry.Names 48 := by
    rw [hgeo]
    exact ⟨by decide, by decide, by decide⟩
  have hblock : v.geometry.blockNamed 48 = 33 := by
    rw [hgeo]
    decide
  have hmap : v.mappingIn ⟨0, 48, 2, false⟩ (0 / v.device.blockSize) = .ok ⟨0, 33, false⟩ := by
    rw [Nat.zero_div]
    refine (Medium.mappingIn_eq_ok (by decide)).mpr ⟨hnames, ?_⟩
    show _ = (⟨0, v.geometry.blockNamed 48, false⟩ : Mapping)
    rw [hblock]
  refine .here (by decide) hfind rfl hmap rfl ?_ ?_
  · rw [runLength, hblockSize]
    decide
  · rw [hdevice, Device.blockCount, size_pastEndDevice]
    decide

/-- The read of the file by the general statement. -/
theorem answer_pastEnd : ∃ v : Volume,
    pastEndDevice.bytes.size < wordLimit ∧
      (∃ dev : Device, dev.bytes = pastEndDevice.bytes ∧ mount dev {} = .ok v) ∧
      (∀ ino f, v.readInode ino ≠ .error (.io f)) ∧
      v.answer (v.cacheOf [.attributes 16]) (.contents 16 0 8192) =
        .error (.io (.blocksPastEnd 33 2 34)) := by
  obtain ⟨v, hmount, hdevice, hgeo⟩ := mount_pastEndDevice
  have hsized : pastEndDevice.bytes.size < wordLimit := by
    rw [size_pastEndDevice]
    decide
  have hcount : v.device.blockCount = 34 := by
    rw [hdevice, Device.blockCount, size_pastEndDevice]
    rfl
  have hmounted : ∃ dev : Device, dev.bytes = pastEndDevice.bytes ∧ mount dev {} = .ok v :=
    ⟨pastEndDevice, rfl, hmount⟩
  obtain ⟨hinodes, hanswers⟩ := answer_io_iff hsized (Or.inr hmounted) rfl [.attributes 16]
  refine ⟨v, hsized, hmounted, hinodes, (hanswers _ _).mpr ?_⟩
  exact ⟨16, 0, 8192, pastEnd, 33, 2, rfl, readInode_pastEnd hdevice hgeo, by decide, rfl,
    runsPast_pastEnd hdevice hgeo, by rw [hcount]⟩

/-- Damage does end with a fault of the device: a read of the file does, on a volume that passes its
checks. -/
theorem contents_io : ¬ ∀ (dev : Device) (options : MountOptions) (v : Volume) (q : Question)
    (f : DeviceFault), dev.Sized → mount dev options = .ok v → options.skipValidation = false →
      v.answer v.emptyCache q ≠ .error (.io f) := by
  intro h
  obtain ⟨v, hmount, hdevice, hgeo⟩ := mount_pastEndDevice
  have hsized : pastEndDevice.Sized := by
    rw [Device.Sized, size_pastEndDevice]
    decide
  have hchecked := (mounted_of_mount hsized hmount).checked hsized rfl
  refine h pastEndDevice {} v (.contents 16 0 8192) (.blocksPastEnd 33 2 v.device.blockCount) hsized
    hmount rfl ?_
  show v.readContents 16 0 8192 = _
  rw [readContents, readInode_pastEnd hdevice hgeo, ok_bind, hchecked.readData_eq_io]
  exact ⟨by decide, rfl, 33, 2, rfl, runsPast_pastEnd hdevice hgeo⟩

end Volume

end XfsVolume
