import XfsVolume.Proofs.Extent.Linear
import XfsVolume.Proofs.Image.Superblock
import XfsVolume.Proofs.Volume.FileData

/-!
# Runs of a read

A read goes along an extent for several blocks at a time. It translates the first of them, and takes
the others from the blocks of the device that follow. What a byte of any read is, on any volume, is
said by the run it comes from (`RunByte`). The block map translates each block by itself: the two
agree on a read exactly when every extent met names a block of the volume for each file block read,
which is what the block map checks and the read does not.
-/

namespace XfsVolume

namespace Volume

variable {v : Volume} {inode : Inode}

/-! ## The bytes of a run -/

/-- `x` is byte `pos` as a run gives it that starts in file block `first`. -/
inductive RunByte (v : Volume) (inode : Inode) (first pos : Nat) (x : UInt8) : Prop
  /-- A missing block reads as zeros. -/
  | hole {l : Nat} (missing : v.findExtent inode first = .error (.extentNotFound l))
      (block : pos / v.device.blockSize = first) (zero : x = 0)
  /-- So does an extent that was never written. -/
  | unwritten {e : Extent} (found : v.findExtent inode first = .ok e)
      (covers : e.covers (pos / v.device.blockSize) = true) (unwritten : e.unwritten = true)
      (zero : x = 0)
  /-- Another extent is read from the device, as far behind its first block as in the file. -/
  | written {e : Extent} {mapping : Mapping} (found : v.findExtent inode first = .ok e)
      (behind : first ≤ pos / v.device.blockSize)
      (covers : e.covers (pos / v.device.blockSize) = true) (written : e.unwritten = false)
      (mapped : v.mappingIn e first = .ok mapping)
      (byte : x = byteAt v.device.bytes
        ((mapping.physical + (pos / v.device.blockSize - first)) * v.device.blockSize +
          pos % v.device.blockSize))

/-- Bytes of a file from `offset` on, each from a run that starts with one of them. -/
def RunBytes (v : Volume) (inode : Inode) (offset : Nat) (data : ByteArray) : Prop :=
  ∀ i < data.size, ∃ j ≤ i,
    v.RunByte inode ((offset + j) / v.device.blockSize) (offset + i) (byteAt data i)

theorem RunBytes.append {offset : Nat} {a b : ByteArray} (ha : v.RunBytes inode offset a)
    (hb : v.RunBytes inode (offset + a.size) b) : v.RunBytes inode offset (a ++ b) := by
  intro i hi
  rw [ByteArray.size_append] at hi
  rw [byteAt_append]
  by_cases hlt : i < a.size
  · rw [if_pos hlt]
    exact ha i hlt
  · rw [if_neg hlt]
    obtain ⟨j, hj, hbyte⟩ := hb (i - a.size) (by omega)
    have hplace : offset + i = offset + a.size + (i - a.size) := by omega
    refine ⟨a.size + j, by omega, ?_⟩
    rw [hplace, ← Nat.add_assoc]
    exact hbyte

theorem Blocked.runBytes_of_readRun (h : v.Blocked) {offset remaining : Nat} {piece : ByteArray}
    (hread : v.readRun inode offset remaining = .ok piece) : v.RunBytes inode offset piece := by
  intro i hi
  refine ⟨0, Nat.zero_le i, ?_⟩
  rw [Nat.add_zero]
  cases hfind : v.findExtent inode (offset / v.device.blockSize) with
  | error fault =>
    cases fault with
    | extentNotFound l =>
      rw [h.readRun_of_missing hfind] at hread
      cases hread
      rw [size_zeros] at hi
      rw [byteAt_zeros]
      exact .hole hfind (block_same h.nonempty (by omega)) rfl
    | _ =>
      rw [← h.blockSize] at hfind
      rw [readRun_of_fault hfind nofun] at hread
      cases hread
  | ok e =>
    have hcovers (hi : i < v.pieceLength e offset remaining) :=
      h.covers_of_lt_pieceLength (Medium.covers_of_findExtent hfind) hi
    rw [h.readRun_of_found hfind] at hread
    cases hu : e.unwritten with
    | true =>
      rw [hu, if_pos rfl] at hread
      cases hread
      rw [size_zeros] at hi
      rw [byteAt_zeros]
      exact .unwritten hfind (hcovers hi) hu rfl
    | false =>
      rw [hu, if_neg Bool.false_ne_true, bind_eq_ok] at hread
      obtain ⟨mapping, hmapping, hread⟩ := hread
      obtain ⟨blocks, hblocks, hpiece⟩ := bind_eq_ok.mp hread
      obtain ⟨-, -, rfl⟩ := (Medium.readBlocks_eq_ok h.sized).mp hblocks
      cases hpiece
      rw [size_window] at hi
      have hlt : i < v.pieceLength e offset remaining := by omega
      have hin := h.pieceLength_le e offset remaining
      exact .written hfind (Nat.div_le_div_right (Nat.le_add_right _ _)) (hcovers hlt) hu hmapping
        (byteAt_blocks h.nonempty hlt (by omega))

theorem Blocked.runBytes_of_readPieces (h : v.Blocked) {offset remaining : Nat}
    {pieces : List ByteArray} (hread : v.readPieces inode offset remaining = .ok pieces) :
    v.RunBytes inode offset (joinBytes pieces) := by
  induction remaining using Nat.strongRecOn generalizing offset pieces with
  | ind remaining ih =>
    have hnone : v.RunBytes inode offset (joinBytes []) := by
      intro i hi
      cases hi
    rw [readPieces] at hread
    split at hread
    · cases hread
      exact hnone
    · rw [bind_eq_ok] at hread
      obtain ⟨piece, hpiece, hread⟩ := hread
      split at hread
      · rename_i hpos
        rw [bind_eq_ok] at hread
        obtain ⟨rest, hrest, hread⟩ := hread
        cases hread
        rw [joinBytes_cons]
        exact (h.runBytes_of_readRun hpiece).append (ih _ (by omega) hrest)
      · cases hread
        exact hnone

theorem Blocked.runBytes_of_readData (h : v.Blocked) (hf : inode.format.isMapped = true)
    {offset len : Nat} {data : ByteArray} (hread : v.readData inode offset len = .ok data) :
    v.RunBytes inode offset data := by
  simp only [readData, throw_bind, ite_error_eq_ok] at hread
  obtain ⟨-, hread⟩ := hread
  split at hread
  · cases hread
    intro i hi
    cases hi
  · cases hformat : inode.format with
    | extents | btree =>
      simp only [hformat, bind_eq_ok] at hread
      obtain ⟨pieces, hpieces, hdata⟩ := hread
      cases hdata
      exact h.runBytes_of_readPieces hpieces
    | dev | inline | uuid =>
      rw [hformat] at hf
      cases hf

/-! ## Runs and the block map -/

/-- `x` is what byte `pos` reads as through the block map, which either finds no extent for its block
or gives a block of the device. -/
inductive MappedByte (v : Volume) (inode : Inode) (pos : Nat) (x : UInt8) : Prop
  | hole {l : Nat}
      (missing : v.mapBlock inode (pos / v.device.blockSize) = .error (.extentNotFound l))
      (zero : x = 0)
  | mapped {mapping : Mapping}
      (mapped : v.mapBlock inode (pos / v.device.blockSize) = .ok mapping)
      (byte : x = if mapping.unwritten then 0 else byteAt v.device.bytes
        (mapping.physical * v.device.blockSize + pos % v.device.blockSize))

/-- Each file block from that of byte `offset + j` to that of byte `offset + i` is the block of a
byte between them. -/
theorem Blocked.exists_byte (h : v.Blocked) {offset j i block : Nat} (hj : j ≤ i)
    (hfirst : (offset + j) / v.device.blockSize ≤ block)
    (hlast : block ≤ (offset + i) / v.device.blockSize) :
    ∃ k ≤ i, (offset + k) / v.device.blockSize = block := by
  rcases Nat.eq_or_lt_of_le hfirst with hsame | hlater
  · exact ⟨j, hj, hsame⟩
  · have hbefore : offset + j < block * v.device.blockSize :=
      (Nat.div_lt_iff_lt_mul h.nonempty).mp hlater
    have hin : block * v.device.blockSize ≤ offset + i :=
      (Nat.le_div_iff_mul_le h.nonempty).mp hlast
    refine ⟨block * v.device.blockSize - offset, by omega, ?_⟩
    rw [Nat.add_sub_cancel' (by omega), Nat.mul_div_cancel _ h.nonempty]

/-- A byte of a run is what the block map gives, when the blocks of the extent are named from the
run's first on. -/
theorem RunByte.mappedByte (hg : v.geometry.Addressable) (hc : v.Consistent inode)
    {first pos : Nat} {x : UInt8} (hx : v.RunByte inode first pos x)
    (hnames : ∀ block, first ≤ block → block ≤ pos / v.device.blockSize →
      ∀ e, v.findExtent inode block = .ok e → v.geometry.Names (e.addressAt block))
    (hle : first ≤ pos / v.device.blockSize) : v.MappedByte inode pos x := by
  cases hx with
  | @hole l missing block zero =>
    have hmap : v.mapBlock inode (pos / v.device.blockSize) = .error (.extentNotFound l) := by
      rw [Medium.mapBlock, block, missing]
      rfl
    exact .hole hmap zero
  | unwritten found covers hu zero =>
    have hfind := hc _ _ found _ covers
    have hnamed := hnames _ hle (Nat.le_refl _) _ hfind
    refine .mapped ((Medium.mapBlock_eq_ok_of_findExtent hfind).mpr ⟨hnamed, rfl⟩) ?_
    rw [zero]
    exact (if_pos hu).symm
  | @written e mapping found behind covers hu mapped byte =>
    have hfirst := Medium.covers_of_findExtent found
    have hfind := hc _ _ found _ covers
    have hnamed := hnames _ hle (Nat.le_refl _) _ hfind
    obtain ⟨-, rfl⟩ := (Medium.mappingIn_eq_ok hfirst).mp mapped
    obtain ⟨hfrom, -⟩ := Extent.covers_iff_stop.mp hfirst
    obtain ⟨-, hto⟩ := Extent.covers_iff_stop.mp covers
    have hpassed : ∀ k < pos / v.device.blockSize - first,
        v.geometry.Names (e.addressAt (first + k)) := by
      intro k hk
      have hkcovers := Extent.covers_iff_stop.mpr ⟨by omega, show first + k < e.stop by omega⟩
      exact hnames _ (by omega) (by omega) e (hc _ _ found _ hkcovers)
    have hlinear := Geometry.blockNamed_addressAt_add hg hfirst hpassed
    rw [Nat.add_sub_cancel' hle] at hlinear
    refine .mapped ((Medium.mapBlock_eq_ok_of_findExtent hfind).mpr ⟨hnamed, rfl⟩) ?_
    rw [byte, hlinear, hu]
    rfl

/-- **Reads and the block map.** Of a file whose look-ups agree on every extent (`Consistent`), what a
read gives is what the block map gives byte by byte, if and only if each extent found for a file
block of the bytes read names a block of the volume there. A read checks that for the first block of
a run only. A list of extents is always `Consistent`, and so is a sound tree
(`Medium.ForkHolds.consistent`). A tree with misleading keys need not be: there a read goes along the
extent of the first block, while the block map may find another extent, or none, for the blocks after
it, and the theorem says nothing. -/
theorem readData_mapped_iff {dev : Device} {options : MountOptions}
    (hm : mount dev options = .ok v) (hs : dev.Sized) (hg : v.geometry.Addressable)
    (hc : v.Consistent inode) (hf : inode.format.isMapped = true) {offset len : Nat}
    {data : ByteArray} (hread : v.readData inode offset len = .ok data) :
    (∀ i < data.size, v.MappedByte inode (offset + i) (byteAt data i)) ↔
      ∀ i < data.size, ∀ e,
        v.findExtent inode ((offset + i) / v.device.blockSize) = .ok e →
          v.geometry.Names (e.addressAt ((offset + i) / v.device.blockSize)) := by
  have h := (mounted_of_mount hs hm).blocked hs
  constructor
  · intro hmapped i hi e hfind
    cases hmapped i hi with
    | hole missing zero =>
      rw [Medium.mapBlock, hfind, ok_bind] at missing
      exact absurd missing (Medium.mappingIn_ne_notFound (Medium.covers_of_findExtent hfind))
    | mapped mapped byte => exact ((Medium.mapBlock_eq_ok_of_findExtent hfind).mp mapped).1
  · intro hnames i hi
    obtain ⟨j, hj, hbyte⟩ := h.runBytes_of_readData hf hread i hi
    have hle : (offset + j) / v.device.blockSize ≤ (offset + i) / v.device.blockSize :=
      Nat.div_le_div_right (by omega)
    refine hbyte.mappedByte hg hc ?_ hle
    intro block hfirst hlast e hfind
    obtain ⟨k, hk, rfl⟩ := h.exists_byte hj hfirst hlast
    exact hnames k (by omega) e hfind

/-! ### An extent across two groups -/

def shortGroups : ImageOptions := { inodeSize := 256, agBlocks := 17, agCount := 2, dirBlockLog := 1 }

theorem shortGroups_bounded : shortGroups.Bounded := by
  refine ⟨⟨?_, ?_, ?_, ?_, ?_⟩, ?_, ?_⟩ <;> decide

/-- A volume of the two groups, empty except for the first byte of the second. -/
def shortGroupsDevice : Device where
  bytes := overwrite (overwrite (zeros (34 * 4096)) 0 (shortGroups.superblock 0)) (17 * 4096)
    (filled 1 90)
  blockSize := 4096

theorem size_shortGroupsDevice : shortGroupsDevice.bytes.size = 34 * 4096 := by
  have hsuper := shortGroups.size_superblock 0
  rw [sectorSize] at hsuper
  rw [shortGroupsDevice, size_overwrite, size_overwrite, size_zeros]
  · rw [hsuper, size_zeros]
    decide
  · rw [size_overwrite (by rw [hsuper, size_zeros]; decide), size_zeros, size_filled]
    decide

theorem heads_shortGroupsDevice : shortGroups.Heads 0 shortGroupsDevice.bytes := by
  have hsuper := shortGroups.size_superblock 0
  have hfirst : 0 + (shortGroups.superblock 0).size ≤ (zeros (34 * 4096)).size := by
    rw [hsuper, size_zeros]
    decide
  have hsecond : 17 * 4096 + (filled 1 90).size ≤
      (overwrite (zeros (34 * 4096)) 0 (shortGroups.superblock 0)).size := by
    rw [size_overwrite hfirst, size_zeros, size_filled]
    decide
  refine ⟨by rw [size_shortGroupsDevice]; decide, fun i hi => ?_⟩
  rw [sectorSize] at hi hsuper
  rw [shortGroupsDevice, byteAt_overwrite hsecond, if_neg (by omega), byteAt_overwrite hfirst,
    if_pos ⟨Nat.zero_le i, by omega⟩, Nat.sub_zero]

theorem byteAt_shortGroupsDevice : byteAt shortGroupsDevice.bytes (17 * 4096) = 90 := by
  have hsuper := shortGroups.size_superblock 0
  rw [sectorSize] at hsuper
  rw [shortGroupsDevice, byteAt_overwrite, if_pos, Nat.sub_self]
  · exact byteAt_filled 90 Nat.one_pos
  · rw [size_filled]
    decide
  · rw [size_overwrite (by rw [hsuper, size_zeros]; decide), size_zeros, size_filled]
    decide

theorem shortGroupsDevice_sized : shortGroupsDevice.Sized := by
  rw [Device.Sized, size_shortGroupsDevice]
  decide

/-- The volume passes every check. -/
theorem mount_shortGroupsDevice : ∃ v, mount shortGroupsDevice {} = .ok v ∧
    v.device = shortGroupsDevice ∧ v.geometry = shortGroups.geometry 0 := by
  have hroot : ({} : MountOptions).skipValidation = false →
      (0 % UInt64.size) >>> shortGroups.inodeBits < shortGroups.agCount := fun _ => by decide
  obtain ⟨v, hmount, hdevice, hgeo, -⟩ := mount_of_heads shortGroups_bounded.inMemory rfl
    size_shortGroupsDevice heads_shortGroupsDevice hroot
  exact ⟨v, hmount, hdevice, hgeo⟩

/-- A file of two blocks: the last of the first group, and one past the group's end. -/
def acrossGroups (mode : UInt16) : Inode := { Medium.twoLeavesInode with
  mode
  format := .extents
  size := 8192
  extents := 1
  fork := (Extent.encode ⟨0, 16, 2, false⟩).toByteArray }

theorem findExtent_acrossGroups (m : Medium) (mode : UInt16) {logical : Nat} (h : logical < 2) :
    m.findExtent (acrossGroups mode) logical = .ok ⟨0, 16, 2, false⟩ := by
  have hroom : (acrossGroups 0).checkInlineExtents = .ok () := by decide +kernel
  have hfork : Extent.ofFork (acrossGroups 0).fork (acrossGroups 0).extents.toNat =
      .ok [⟨0, 16, 2, false⟩] := by decide +kernel
  have hinline : (acrossGroups mode).inlineExtents = .ok [⟨0, 16, 2, false⟩] := by
    have hsame : (acrossGroups mode).inlineExtents = (acrossGroups 0).inlineExtents := rfl
    rw [hsame, Inode.inlineExtents, hroom, ok_bind, hfork, mapError_ok]
  have hformat : (acrossGroups mode).format = .extents := rfl
  have hscan : scanExtents 0 logical none [⟨0, 16, 2, false⟩] =
      .ok (.found ⟨0, 16, 2, false⟩) := by
    obtain rfl | rfl : logical = 0 ∨ logical = 1 := by omega
    · rfl
    · rfl
  rw [Medium.findExtent, hformat]
  simp only [hinline, ok_bind, hscan, pure_eq_ok]

theorem mappingIn_acrossGroups {m : Medium} (hgeo : m.geometry = shortGroups.geometry 0) :
    m.mappingIn ⟨0, 16, 2, false⟩ 0 = .ok ⟨0, 16, false⟩ := by
  have hnames : m.geometry.Names 16 := by
    rw [hgeo]
    exact ⟨by decide, by decide, by decide⟩
  have hblock : m.geometry.blockNamed 16 = 16 := by
    rw [hgeo]
    decide
  refine (Medium.mappingIn_eq_ok (by decide)).mpr ⟨hnames, ?_⟩
  show _ = (⟨0, m.geometry.blockNamed 16, false⟩ : Mapping)
  rw [hblock]

theorem mapBlock_acrossGroups {m : Medium} (hgeo : m.geometry = shortGroups.geometry 0)
    (mode : UInt16) : m.mapBlock (acrossGroups mode) 1 = .error (.corruptTree 17
      (.extentAddress 0 (.invalidField "fsblock" "AG block beyond sb_agblocks"))) := by
  have hblock : m.geometry.deviceBlock 17 =
      .error (.invalidField "fsblock" "AG block beyond sb_agblocks") := by
    rw [hgeo]
    rfl
  have haddress : Extent.addressOf? ⟨0, 16, 2, false⟩ 1 = some 17 := rfl
  rw [Medium.mapBlock, findExtent_acrossGroups m mode (by decide), ok_bind, Medium.mappingIn,
    haddress]
  simp only [hblock, mapError_error, error_bind]

theorem readPieces_of_readRun {offset : Nat} {piece : ByteArray} (hpos : 0 < piece.size)
    (h : v.readRun inode offset piece.size = .ok piece) :
    v.readPieces inode offset piece.size = .ok [piece] := by
  have hend : v.readPieces inode (offset + piece.size) (piece.size - piece.size) = .ok [] := by
    rw [readPieces, if_pos (Nat.sub_self _)]
    rfl
  rw [readPieces, if_neg (by omega), h, ok_bind, dif_pos ⟨hpos, hpos⟩, hend]
  rfl

theorem readData_acrossGroups (hdevice : v.device = shortGroupsDevice)
    (hgeo : v.geometry = shortGroups.geometry 0) :
    ∃ data, v.readData (acrossGroups 0x8000) 4095 2 = .ok data ∧ data.size = 2 ∧
      byteAt data 1 = 90 := by
  have hbs : v.geometry.blockSize.toNat = 4096 := by
    rw [hgeo]
    rfl
  have hin : 16 + 2 ≤ v.device.blockCount := by
    rw [hdevice, Device.blockCount, size_shortGroupsDevice]
    decide
  have hsized : v.device.Sized := by
    rw [hdevice]
    exact shortGroupsDevice_sized
  have hblock : v.device.blockSize = 4096 := by
    rw [hdevice]
    rfl
  have hsize : (window (v.device.span 16 2) 4095 2).size = 2 := by
    rw [size_window_of_le]
    rw [Device.size_span hin, hblock]
    decide
  have hrun : v.readRun (acrossGroups 0x8000) 4095 2 =
      .ok (window (v.device.span 16 2) 4095 2) := by
    rw [readRun, hbs]
    simp only [show 4095 / 4096 = 0 from rfl, findExtent_acrossGroups v.toMedium _ (Nat.zero_lt_two),
      mappingIn_acrossGroups hgeo]
    exact congrArg (· >>= fun blocks => pure (window blocks 4095 2))
      (Medium.readBlocks_eq hsized (Nat.zero_lt_two) hin)
  have hpieces := readPieces_of_readRun (by rw [hsize]; decide) (by rw [hsize]; exact hrun)
  rw [hsize] at hpieces
  refine ⟨window (v.device.span 16 2) 4095 2, ?_, hsize, ?_⟩
  · have hformat : (acrossGroups 0x8000).format = .extents := rfl
    have hcount : min 2 ((acrossGroups 0x8000).size.toNat - 4095) = 2 := by decide
    have hdir : (acrossGroups 0x8000).isDirectory = false := by decide
    rw [readData, hdir, if_neg Bool.false_ne_true, if_neg (by decide), hcount, hformat]
    simp only [hpieces, ok_bind, joinBytes_cons, joinBytes_nil, ByteArray.append_empty, pure_eq_ok]
  · rw [byteAt_window (by decide), Device.span, byteAt_window (by rw [hblock]; decide), hblock,
      hdevice]
    exact byteAt_shortGroupsDevice

theorem consistent_acrossGroups (m : Medium) (mode : UInt16) : m.Consistent (acrossGroups mode) :=
  Medium.consistent_of_inline rfl

/-- The read gives a byte of the second group, though the block map refuses its file block. -/
theorem readData_refused_by_map : ∃ v data,
    mount shortGroupsDevice {} = .ok v ∧ (acrossGroups 0x8000).format.isMapped = true ∧
      v.readData (acrossGroups 0x8000) 4095 2 = .ok data ∧ byteAt data 1 = 90 ∧
      ∃ flaw, v.mapBlock (acrossGroups 0x8000) ((4095 + 1) / v.device.blockSize) =
        .error (.corruptTree 17 flaw) := by
  obtain ⟨v, hmount, hdevice, hgeo⟩ := mount_shortGroupsDevice
  obtain ⟨data, hread, -, hbyte⟩ := readData_acrossGroups hdevice hgeo
  refine ⟨v, data, hmount, rfl, hread, hbyte,
    .extentAddress 0 (.invalidField "fsblock" "AG block beyond sb_agblocks"), ?_⟩
  rw [hdevice]
  exact mapBlock_acrossGroups hgeo _

/-- The same read by the general statement: it is not what the block map gives. -/
theorem readData_acrossGroups_unmapped : ∃ v data,
    mount shortGroupsDevice {} = .ok v ∧ shortGroupsDevice.Sized ∧ v.geometry.Addressable ∧
      v.Consistent (acrossGroups 0x8000) ∧ (acrossGroups 0x8000).format.isMapped = true ∧
      v.readData (acrossGroups 0x8000) 4095 2 = .ok data ∧
      ¬ ∀ i < data.size, v.MappedByte (acrossGroups 0x8000) (4095 + i) (byteAt data i) := by
  obtain ⟨v, hmount, hdevice, hgeo⟩ := mount_shortGroupsDevice
  obtain ⟨data, hread, hsize, -⟩ := readData_acrossGroups hdevice hgeo
  have haddressable : v.geometry.Addressable := by
    rw [hgeo, Geometry.Addressable]
    decide
  have hconsistent := consistent_acrossGroups v.toMedium 0x8000
  refine ⟨v, data, hmount, shortGroupsDevice_sized, haddressable, hconsistent, rfl, hread, ?_⟩
  rw [readData_mapped_iff hmount shortGroupsDevice_sized haddressable hconsistent rfl hread]
  intro hnames
  have hblock : (4095 + 1) / v.device.blockSize = 1 := by
    rw [hdevice]
    rfl
  have hnamed := hnames 1 (by omega) ⟨0, 16, 2, false⟩ (by
    rw [hblock]
    exact findExtent_acrossGroups _ _ (by decide))
  rw [hblock] at hnamed
  have hin := hnamed.inGroup
  rw [hgeo] at hin
  exact absurd hin (by decide)

end Volume

end XfsVolume
