import XfsVolume.Proofs.Fields
import XfsVolume.Proofs.Volume.Pieces

/-!
# Reading file data

What a byte of a mapped file reads as is settled by its extents and the block map (`FileByte`). A
piece of a read never leaves the extent or the missing block that it starts in, so each of its bytes
is the right one, and the pieces cover the range asked for without a gap. A read therefore gives
exactly the bytes of the file from its offset on, as far as the buffer and the file go, and reading
in two parts gives the same bytes.
-/

namespace XfsVolume

/-! ## Pieces put together -/

theorem foldl_append_bytes : ∀ (pieces : List ByteArray) (front : ByteArray),
    pieces.foldl (· ++ ·) front = front ++ joinBytes pieces
  | [], front => by rw [List.foldl_nil, joinBytes, List.foldl_nil, ByteArray.append_empty]
  | piece :: pieces, front => by
      have hcons : joinBytes (piece :: pieces) = piece ++ joinBytes pieces := by
        rw [joinBytes, List.foldl_cons, foldl_append_bytes pieces, ByteArray.empty_append]
      rw [List.foldl_cons, foldl_append_bytes pieces, hcons, ByteArray.append_assoc]

@[simp] theorem joinBytes_nil : joinBytes [] = ByteArray.empty := rfl

@[simp] theorem joinBytes_cons (piece : ByteArray) (pieces : List ByteArray) :
    joinBytes (piece :: pieces) = piece ++ joinBytes pieces := by
  rw [joinBytes, List.foldl_cons, foldl_append_bytes, ByteArray.empty_append]

namespace Volume

variable {v : Volume} {inode : Inode} {extents : List Extent}

/-- `x` is what byte `pos` of a file with these extents reads as: zero in a hole and in an extent
that was never written, and otherwise the byte of the device block that the block map gives. -/
structure FileByte (v : Volume) (inode : Inode) (extents : List Extent) (pos : Nat) (x : UInt8) :
    Prop where
  hole : (∀ e ∈ extents, ¬ e.Holds (pos / v.device.blockSize)) →
    v.mapBlock inode (pos / v.device.blockSize) =
      .error (.extentNotFound (pos / v.device.blockSize)) ∧ x = 0
  unwritten : ∀ e ∈ extents, e.Holds (pos / v.device.blockSize) → e.unwritten = true → x = 0
  written : ∀ e ∈ extents, e.Holds (pos / v.device.blockSize) → e.unwritten = false →
    ∃ mapping, v.mapBlock inode (pos / v.device.blockSize) = .ok mapping ∧
      x = byteAt v.device.bytes
        (mapping.physical * v.device.blockSize + pos % v.device.blockSize)

/-- A byte of a file reads as one thing only. -/
theorem FileByte.unique {pos : Nat} {x y : UInt8} (hx : v.FileByte inode extents pos x)
    (hy : v.FileByte inode extents pos y) : x = y := by
  by_cases hn : ∀ e ∈ extents, ¬ e.Holds (pos / v.device.blockSize)
  · rw [(hx.hole hn).2, (hy.hole hn).2]
  · obtain ⟨e, he, hh⟩ : ∃ e ∈ extents, e.Holds (pos / v.device.blockSize) := by
      by_contra hno
      exact hn fun e he hh => hno ⟨e, he, hh⟩
    cases hu : e.unwritten with
    | true => rw [hx.unwritten e he hh hu, hy.unwritten e he hh hu]
    | false =>
      obtain ⟨mapping, hmap, rfl⟩ := hx.written e he hh hu
      obtain ⟨mapping', hmap', rfl⟩ := hy.written e he hh hu
      rw [hmap] at hmap'
      cases hmap'
      rfl

/-- Bytes that are those of the file from `offset` on. -/
def FileBytes (v : Volume) (inode : Inode) (extents : List Extent) (offset : Nat)
    (data : ByteArray) : Prop :=
  ∀ i < data.size, v.FileByte inode extents (offset + i) (byteAt data i)

theorem FileBytes.append {offset : Nat} {a b : ByteArray}
    (ha : v.FileBytes inode extents offset a) (hb : v.FileBytes inode extents (offset + a.size) b) :
    v.FileBytes inode extents offset (a ++ b) := by
  intro i hi
  rw [ByteArray.size_append] at hi
  rw [byteAt_append]
  by_cases hlt : i < a.size
  · rw [if_pos hlt]
    exact ha i hlt
  · rw [if_neg hlt]
    have hplace : offset + i = offset + a.size + (i - a.size) := by omega
    rw [hplace]
    exact hb (i - a.size) (by omega)

/-- Bytes of one range of the file are the same bytes. -/
theorem FileBytes.unique {offset : Nat} {a b : ByteArray} (hs : a.size = b.size)
    (ha : v.FileBytes inode extents offset a) (hb : v.FileBytes inode extents offset b) : a = b :=
  bytes_ext hs fun i hi => (ha i hi).unique (hb i (hs ▸ hi))

/-! ## One piece -/

/-- What a file needs for its data to be read: extents held by its fork, each in an allocation group
and inside the volume and the device. -/
structure Readable (v : Volume) (inode : Inode) (extents : List Extent) : Prop where
  sized : v.device.Sized
  blockSize : v.geometry.blockSize.toNat = v.device.blockSize
  nonempty : 0 < v.device.blockSize
  fork : v.ForkHolds inode extents
  placed : ∀ e ∈ extents, ∃ ag agBlock, v.Placed e ag agBlock

theorem Readable.blocked (h : v.Readable inode extents) : v.Blocked where
  sized := h.sized
  blockSize := h.blockSize
  nonempty := h.nonempty

theorem Readable.fileBytes_hole (h : v.Readable inode extents) {offset len : Nat}
    (hn : ∀ e ∈ extents, ¬ e.Holds (offset / v.device.blockSize))
    (hlen : offset % v.device.blockSize + len ≤ v.device.blockSize) :
    v.FileBytes inode extents offset (zeros len) := by
  intro i hi
  rw [size_zeros] at hi
  have hblock := block_same h.nonempty (show offset % v.device.blockSize + i < _ by omega)
  rw [byteAt_zeros]
  refine ⟨?_, ?_, ?_⟩
  · intro hn
    exact ⟨h.fork.mapBlock_hole h.sized hn, rfl⟩
  · intro e he hh
    rw [hblock] at hh
    exact absurd hh (hn e he)
  · intro e he hh
    rw [hblock] at hh
    exact absurd hh (hn e he)

theorem Readable.fileBytes_unwritten (h : v.Readable inode extents) {offset len : Nat} {e : Extent}
    (he : e ∈ extents) (hu : e.unwritten = true)
    (hin : ∀ i < len, e.Holds ((offset + i) / v.device.blockSize)) :
    v.FileBytes inode extents offset (zeros len) := by
  intro i hi
  rw [size_zeros] at hi
  rw [byteAt_zeros]
  refine ⟨?_, fun _ _ _ _ => rfl, ?_⟩
  · intro hn
    exact absurd (hin i hi) (hn e he)
  · intro e' he' hh hu'
    rw [h.fork.inOrder.eq_of_holds he' he hh (hin i hi), hu] at hu'
    cases hu'

/-- The device bytes from where the block map puts `offset` are what a range inside a written extent
reads as. -/
theorem Readable.fileBytes_written (h : v.Readable inode extents) {offset len ag agBlock : Nat}
    {e : Extent} (he : e ∈ extents) (hp : v.Placed e ag agBlock) (hu : e.unwritten = false)
    (hin : ∀ i < len, e.Holds ((offset + i) / v.device.blockSize)) {data : ByteArray}
    (hsize : data.size = len)
    (hdata : ∀ i < len, byteAt data i = byteAt v.device.bytes
      ((v.geometry.groupBlock ag agBlock + (offset / v.device.blockSize - e.start) +
          ((offset + i) / v.device.blockSize - offset / v.device.blockSize)) *
        v.device.blockSize + (offset + i) % v.device.blockSize)) :
    v.FileBytes inode extents offset data := by
  intro i hi
  rw [hsize] at hi
  refine ⟨?_, ?_, ?_⟩
  · intro hn
    exact absurd (hin i hi) (hn e he)
  · intro e' he' hh hu'
    rw [h.fork.inOrder.eq_of_holds he' he hh (hin i hi), hu] at hu'
    cases hu'
  · intro e' he' hh _
    obtain rfl : e' = e := h.fork.inOrder.eq_of_holds he' he hh (hin i hi)
    refine ⟨_, h.fork.mapBlock_eq h.sized he hp hh, ?_⟩
    have hfirst := (hin 0 (by omega)).1
    have hle : offset / v.device.blockSize ≤ (offset + i) / v.device.blockSize :=
      Nat.div_le_div_right (Nat.le_add_right _ _)
    rw [hdata i hi, Nat.add_assoc (v.geometry.groupBlock ag agBlock), Nat.add_comm (_ - e'.start),
      Nat.sub_add_sub_cancel hle hfirst]

theorem Readable.readRun_eq (h : v.Readable inode extents) (offset : Nat) {remaining : Nat}
    (hr : 0 < remaining) :
    ∃ piece, v.readRun inode offset remaining = .ok piece ∧ 0 < piece.size ∧
      piece.size ≤ remaining ∧ v.FileBytes inode extents offset piece := by
  by_cases hn : ∀ e ∈ extents, ¬ e.Holds (offset / v.device.blockSize)
  · have hfind := (h.fork.findExtent_eq h.sized (offset / v.device.blockSize)).2 hn
    have hmod := Nat.mod_lt offset h.nonempty
    refine ⟨_, h.blocked.readRun_of_missing hfind, ?_, ?_, h.fileBytes_hole hn (by omega)⟩
    · rw [size_zeros]
      omega
    · rw [size_zeros]
      omega
  · obtain ⟨e, he, hh⟩ : ∃ e ∈ extents, e.Holds (offset / v.device.blockSize) := by
      by_contra hno
      exact hn fun e he hh => hno ⟨e, he, hh⟩
    have hfind := (h.fork.findExtent_eq h.sized (offset / v.device.blockSize)).1 e he hh
    have hfit := h.fork.inOrder.fits e he
    have hcovers := (hfit.covers_iff _).mpr hh
    obtain ⟨hpos, hle⟩ := h.blocked.pieceLength_bounds hcovers hr
    have hin : ∀ i < v.pieceLength e offset remaining,
        e.Holds ((offset + i) / v.device.blockSize) := fun i hi =>
      (hfit.covers_iff _).mp (h.blocked.covers_of_lt_pieceLength hcovers hi)
    rw [h.blocked.readRun_of_found hfind]
    cases hu : e.unwritten with
    | true =>
      refine ⟨_, if_pos rfl, ?_, ?_, h.fileBytes_unwritten he hu hin⟩
      · rwa [size_zeros]
      · rwa [size_zeros]
    | false =>
      obtain ⟨ag, agBlock, hp⟩ := h.placed e he
      obtain ⟨hsome, hrun⟩ := h.blocked.runLength_bounds hcovers hr
      have hend : v.geometry.groupBlock ag agBlock + (offset / v.device.blockSize - e.start) +
          v.runLength e offset remaining ≤ v.device.blockCount := by
        have hdevice := hp.inDevice
        have hstart := hh.1
        rw [hfit.stop_eq] at hrun
        omega
      have hwhole := h.blocked.pieceLength_le e offset remaining
      have hsize :=
        size_window_of_le (Nat.le_trans hwhole (Nat.le_of_eq (Device.size_span hend).symm))
      refine ⟨_, ?_, by rwa [hsize], by rwa [hsize],
        h.fileBytes_written he hp hu hin hsize fun i hi => byteAt_blocks h.nonempty hi (by omega)⟩
      rw [if_neg Bool.false_ne_true, hp.mappingIn_eq hfit hh, ok_bind,
        Medium.readBlocks_eq h.sized hsome hend, ok_bind]

/-! ## A whole read -/

theorem Readable.readPieces_eq (h : v.Readable inode extents) (offset remaining : Nat) :
    ∃ pieces, v.readPieces inode offset remaining = .ok pieces ∧
      (joinBytes pieces).size = remaining ∧
      v.FileBytes inode extents offset (joinBytes pieces) := by
  induction remaining using Nat.strongRecOn generalizing offset with
  | ind remaining ih =>
    rw [readPieces]
    rcases Nat.eq_zero_or_pos remaining with rfl | hr
    · refine ⟨[], rfl, rfl, ?_⟩
      intro i hi
      cases hi
    · obtain ⟨piece, hpiece, hpos, hle, hbytes⟩ := h.readRun_eq offset hr
      obtain ⟨rest, hrest, hsize, hafter⟩ := ih (remaining - piece.size) (by omega)
        (offset + piece.size)
      refine ⟨piece :: rest, ?_, ?_, ?_⟩
      · rw [if_neg (by omega), hpiece]
        simp only [ok_bind, hrest, pure_eq_ok]
        rw [dif_pos ⟨hpos, hr⟩]
      · rw [joinBytes_cons, ByteArray.size_append, hsize]
        omega
      · rw [joinBytes_cons]
        exact hbytes.append hafter

/-- Bytes that a read of at most `len` bytes gives: as many as the file has from `offset` on. -/
def readCount (size offset len : Nat) : Nat := if offset ≥ size then 0 else min len (size - offset)

theorem Readable.readData_eq (h : v.Readable inode extents) (hd : inode.isDirectory = false)
    (offset len : Nat) :
    ∃ data, v.readData inode offset len = .ok data ∧
      data.size = readCount inode.size.toNat offset len ∧
      v.FileBytes inode extents offset data := by
  by_cases hend : offset ≥ inode.size.toNat
  · refine ⟨ByteArray.empty, ?_, ?_, ?_⟩
    · rw [readData, hd]
      simp only [Bool.false_eq_true, if_false, hend, if_true]
      rfl
    · rw [readCount, if_pos hend]
      rfl
    · intro i hi
      cases hi
  · obtain ⟨pieces, hpieces, hsize, hbytes⟩ :=
      h.readPieces_eq offset (min len (inode.size.toNat - offset))
    refine ⟨joinBytes pieces, ?_, ?_, hbytes⟩
    · rw [readData, hd]
      simp only [Bool.false_eq_true, if_false, hend]
      rcases h.fork.isMapped with hf | hf
      · simp only [hf, hpieces, ok_bind, pure_eq_ok]
      · simp only [hf, hpieces, ok_bind, pure_eq_ok]
    · rw [readCount, if_neg hend, hsize]

theorem Mounted.readable {dev : Device} {options : MountOptions} (hm : v.Mounted dev options)
    (hs : dev.Sized) (hf : v.ForkHolds inode extents)
    (hp : ∀ e ∈ extents, ∃ ag agBlock, v.Placed e ag agBlock) : v.Readable inode extents where
  sized := (hm.blocked hs).sized
  blockSize := (hm.blocked hs).blockSize
  nonempty := (hm.blocked hs).nonempty
  fork := hf
  placed := hp

/-- **Reading a file.** A read into a buffer fills it with the bytes of the file from `offset` on, as
far as the buffer and the file go, and leaves the rest of the buffer alone; and a read in two parts
gives what the whole read gives. -/
theorem readInto_eq {dev : Device} {options : MountOptions} (hm : mount dev options = .ok v)
    (hs : dev.Sized) (hd : inode.isDirectory = false) (hf : v.ForkHolds inode extents)
    (hp : ∀ e ∈ extents, ∃ ag agBlock, v.Placed e ag agBlock) :
    (∀ offset buffer, ∃ out,
      v.readInto inode offset buffer =
        .ok (readCount inode.size.toNat offset buffer.size, out) ∧
      out.size = buffer.size ∧
      (∀ i, readCount inode.size.toNat offset buffer.size ≤ i →
        byteAt out i = byteAt buffer i) ∧
      ∀ i < readCount inode.size.toNat offset buffer.size,
        v.FileByte inode extents (offset + i) (byteAt out i)) ∧
    ∀ offset a b, ∃ front back,
      v.readData inode offset a = .ok front ∧ v.readData inode (offset + a) b = .ok back ∧
      v.readData inode offset (a + b) = .ok (front ++ back) := by
  have h := (mounted_of_mount hs hm).readable hs hf hp
  refine ⟨?_, ?_⟩
  · intro offset buffer
    obtain ⟨data, hdata, hsize, hbytes⟩ := h.readData_eq hd offset buffer.size
    have hle : data.size ≤ buffer.size := by
      rw [hsize, readCount]
      split
      · omega
      · omega
    have hin : 0 + data.size ≤ buffer.size := by omega
    refine ⟨overwrite buffer 0 data, ?_, size_overwrite hin, ?_, ?_⟩
    · rw [readInto, hdata, ← hsize]
      rfl
    · intro i hi
      rw [byteAt_overwrite hin, if_neg (by omega)]
    · intro i hi
      rw [byteAt_overwrite hin, if_pos ⟨by omega, by omega⟩]
      exact hbytes i (by omega)
  · intro offset a b
    obtain ⟨front, hfront, hfsize, hfbytes⟩ := h.readData_eq hd offset a
    obtain ⟨back, hback, hbsize, hbbytes⟩ := h.readData_eq hd (offset + a) b
    obtain ⟨whole, hwhole, hwsize, hwbytes⟩ := h.readData_eq hd offset (a + b)
    refine ⟨front, back, hfront, hback, ?_⟩
    have hsizes : whole.size = (front ++ back).size := by
      rw [ByteArray.size_append, hfsize, hbsize, hwsize]
      simp only [readCount]
      split <;> split <;> omega
    rw [hwhole]
    congr 1
    apply hwbytes.unique hsizes
    by_cases hfull : front.size = a
    · exact hfbytes.append (by rwa [hfull])
    · have hempty : back.size = 0 := by
        rw [readCount] at hfsize hbsize
        split at hfsize <;> split at hbsize <;> omega
      intro i hi
      rw [ByteArray.size_append, hempty, Nat.add_zero] at hi
      rw [byteAt_append, if_pos hi]
      exact hfbytes i hi

/-! ### A file with a hole -/

def twoBlocksFields : List Field :=
  [⟨0, 4, superblockMagic.toNat⟩, ⟨4, 4, 4096⟩, ⟨8, 8, 2⟩, ⟨84, 4, 2⟩, ⟨88, 4, 1⟩, ⟨120, 1, 12⟩,
    ⟨124, 1, 1⟩, ⟨4094, 1, 7⟩, ⟨4095, 1, 8⟩]

def twoBlocks : Device := ⟨blockOf 8192 twoBlocksFields, 4096⟩

theorem size_twoBlocks : twoBlocks.bytes.size = 8192 := size_blockOf (by decide)

theorem twoBlocks_blockCount : twoBlocks.blockCount = 2 := by
  rw [Device.blockCount, size_twoBlocks]
  rfl

theorem twoBlocks_sized : twoBlocks.Sized := by
  rw [Device.Sized, size_twoBlocks]
  decide

theorem beNat_twoBlocks {f : Field} (hf : f ∈ twoBlocksFields) :
    beNat twoBlocks.bytes f.offset f.width = f.value % 256 ^ f.width :=
  beNat_blockOf (by decide) (by decide) hf

theorem twoBlocks_field {f : Field} (hf : f ∈ twoBlocksFields) (hin : f.stop ≤ 4096) :
    beNat (twoBlocks.block 0) f.offset f.width = f.value % 256 ^ f.width := by
  have hwindow : f.offset + f.width ≤ 1 * twoBlocks.blockSize := hin
  rw [Device.block, Device.span, beNat_window hwindow, Nat.zero_mul, Nat.zero_add]
  exact beNat_twoBlocks hf

theorem twoBlocks_zero {off : Nat} (n : Nat)
    (ho : ∀ f ∈ twoBlocksFields, off + n ≤ f.offset ∨ f.stop ≤ off) (hin : off + n ≤ 4096) :
    beNat (twoBlocks.block 0) off n = 0 := by
  have hwindow : off + n ≤ 1 * twoBlocks.blockSize := hin
  rw [Device.block, Device.span, beNat_window hwindow, Nat.zero_mul, Nat.zero_add]
  exact beNat_blockOf_of_apart (by decide) ho

def twoBlocksSuper : Superblock := Superblock.stored (twoBlocks.block 0)

theorem twoBlocksSuper_fields :
    twoBlocksSuper.blockSize = 4096 ∧ twoBlocksSuper.blockLog = 12 ∧
      twoBlocksSuper.dataBlocks = 2 ∧ twoBlocksSuper.agBlocks = 2 ∧ twoBlocksSuper.agCount = 1 ∧
      twoBlocksSuper.agBlockLog = 1 ∧ twoBlocksSuper.inodesPerBlockLog = 0 ∧
      twoBlocksSuper.inodeLog = 0 ∧ twoBlocksSuper.dirBlockLog = 0 := by
  refine ⟨?_, ?_, ?_, ?_, ?_, ?_, ?_, ?_, ?_⟩
  · exact congrArg UInt32.ofNat (twoBlocks_field (f := ⟨4, 4, 4096⟩) (by decide) (by decide))
  · exact congrArg UInt8.ofNat (twoBlocks_field (f := ⟨120, 1, 12⟩) (by decide) (by decide))
  · exact congrArg UInt64.ofNat (twoBlocks_field (f := ⟨8, 8, 2⟩) (by decide) (by decide))
  · exact congrArg UInt32.ofNat (twoBlocks_field (f := ⟨84, 4, 2⟩) (by decide) (by decide))
  · exact congrArg UInt32.ofNat (twoBlocks_field (f := ⟨88, 4, 1⟩) (by decide) (by decide))
  · exact congrArg UInt8.ofNat (twoBlocks_field (f := ⟨124, 1, 1⟩) (by decide) (by decide))
  · exact congrArg UInt8.ofNat (twoBlocks_zero 1 (by decide) (by decide))
  · exact congrArg UInt8.ofNat (twoBlocks_zero 1 (by decide) (by decide))
  · exact congrArg UInt8.ofNat (twoBlocks_zero 1 (by decide) (by decide))

def twoBlocksVolume : Volume where
  device := twoBlocks
  geometry := twoBlocksSuper.storedGeometry
  superblock := twoBlocksSuper
  cacheSlots := defaultCacheSlots

theorem twoBlocks_mounted : twoBlocksVolume.Mounted twoBlocks { skipValidation := true } := by
  obtain ⟨hbs, hlog, hdata, hag, hcount, haglog, hperlog, hilog, hdir⟩ := twoBlocksSuper_fields
  have hsize : (twoBlocks.block 0).size = 4096 :=
    Device.size_block (by rw [twoBlocks_blockCount]; decide)
  have hbs' : twoBlocksVolume.geometry.blockSize = 4096 := hbs
  refine ⟨rfl, rfl, ?_, ?_, ?_, ?_, rfl, (by intro h; cases h), (by intro h; cases h)⟩
  · rw [twoBlocks_blockCount]
    decide
  · apply Superblock.read_eq
    · rw [hsize]
      decide
    · rw [hsize]
      decide
    · rw [twoBlocks_field (f := ⟨0, 4, superblockMagic.toNat⟩) (by decide) (by decide)]
      rfl
  · show twoBlocksSuper.geometry = .ok twoBlocksSuper.storedGeometry
    refine Superblock.geometry_eq_ok.mpr ⟨?_, rfl⟩
    constructor
    · rw [hlog]
      decide
    · rw [hlog, hbs]
      decide
    · rw [haglog, hperlog]
      decide
    · rw [hilog]
      decide
    · rw [hag]
      decide
    · rw [hcount]
      decide
    · rw [hlog, hdir]
      decide
  · rw [hbs']
    rfl

/-- A regular file of 15000 bytes: a block that was written, a hole, and a block that was not. -/
def holedFile : Inode := { Medium.twoLeavesInode with
  mode := 0x8000
  format := .extents
  size := 15000
  fork := (Extent.encode ⟨1, 0, 1, false⟩ ++ Extent.encode ⟨3, 1, 1, true⟩).toByteArray }

theorem holedFile_holds :
    twoBlocksVolume.ForkHolds holedFile [⟨1, 0, 1, false⟩, ⟨3, 1, 1, true⟩] := by
  have hroom : holedFile.checkInlineExtents = .ok () := by decide +kernel
  have hfork : Extent.ofFork holedFile.fork holedFile.extents.toNat =
      .ok [⟨1, 0, 1, false⟩, ⟨3, 1, 1, true⟩] := by decide +kernel
  have hinline : holedFile.inlineExtents = .ok [⟨1, 0, 1, false⟩, ⟨3, 1, 1, true⟩] := by
    rw [Inode.inlineExtents, hroom, ok_bind, hfork, mapError_ok]
  have hformat : holedFile.format = .extents := rfl
  have hall : twoBlocksVolume.allExtents holedFile = .ok [⟨1, 0, 1, false⟩, ⟨3, 1, 1, true⟩] := by
    rw [Medium.allExtents, hformat]
    simp only [hinline, ok_bind]
    rfl
  exact .inline rfl hfork hall

theorem holedFile_placed : ∀ e ∈ [(⟨1, 0, 1, false⟩ : Extent), ⟨3, 1, 1, true⟩],
    twoBlocksVolume.Placed e 0 e.address := by
  obtain ⟨-, -, hdata, hag, hcount, haglog, -⟩ := twoBlocksSuper_fields
  have hdata' : twoBlocksVolume.geometry.dataBlocks = 2 := hdata
  have hag' : twoBlocksVolume.geometry.agBlocks = 2 := hag
  have hcount' : twoBlocksVolume.geometry.agCount = 1 := hcount
  have haglog' : twoBlocksVolume.geometry.agBlockLog = 1 := haglog
  have hdevice : twoBlocksVolume.device.blockCount = 2 := twoBlocks_blockCount
  intro e he
  constructor <;>
    simp only [Geometry.groupBlock, hdata', hag', hcount', haglog', hdevice] <;>
    revert e he <;> decide

/-- The last two bytes of the written block, and a zero of the hole after it. -/
theorem readInto_holedFile :
    mount twoBlocks { skipValidation := true } = .ok twoBlocksVolume ∧ twoBlocks.Sized ∧
      holedFile.isDirectory = false ∧
      twoBlocksVolume.ForkHolds holedFile [⟨1, 0, 1, false⟩, ⟨3, 1, 1, true⟩] ∧
      (∀ e ∈ [(⟨1, 0, 1, false⟩ : Extent), ⟨3, 1, 1, true⟩],
        ∃ ag agBlock, twoBlocksVolume.Placed e ag agBlock) ∧
      ∃ out, twoBlocksVolume.readInto holedFile 8190 (filled 3 9) = .ok (3, out) ∧
        byteAt out 0 = 7 ∧ byteAt out 1 = 8 ∧ byteAt out 2 = 0 := by
  have hmount := twoBlocks_mounted.mount_eq twoBlocks_sized
  have hdir : holedFile.isDirectory = false := by decide
  have hplaced : ∀ e ∈ [(⟨1, 0, 1, false⟩ : Extent), ⟨3, 1, 1, true⟩],
      ∃ ag agBlock, twoBlocksVolume.Placed e ag agBlock :=
    fun e he => ⟨0, e.address, holedFile_placed e he⟩
  refine ⟨hmount, twoBlocks_sized, hdir, holedFile_holds, hplaced, ?_⟩
  obtain ⟨hread, -⟩ := readInto_eq hmount twoBlocks_sized hdir holedFile_holds hplaced
  obtain ⟨out, hout, -, -, hbytes⟩ := hread 8190 (filled 3 9)
  have hcount : readCount holedFile.size.toNat 8190 3 = 3 := by decide
  rw [size_filled, hcount] at hout hbytes
  have hs : twoBlocksVolume.device.Sized := by
    rw [twoBlocks_mounted.device]
    exact twoBlocks_sized
  have hfirst : twoBlocksVolume.Placed ⟨1, 0, 1, false⟩ 0 0 :=
    holedFile_placed _ List.mem_cons_self
  have hholds : (⟨1, 0, 1, false⟩ : Extent).Holds 1 := by decide
  have hmap := holedFile_holds.mapBlock_eq hs List.mem_cons_self hfirst hholds
  rw [Geometry.groupBlock_zero] at hmap
  have hbyte {f : Field} (hf : f ∈ twoBlocksFields) (hw : f.width = 1) :
      byteAt twoBlocks.bytes f.offset = UInt8.ofNat f.value := by
    have hvalue := beNat_twoBlocks hf
    rw [hw, Nat.pow_one] at hvalue
    rw [byteAt_eq_ofNat, hvalue, UInt8.ofNat_mod_size]
  have hwritten (i pos : Nat) (hi : i < 3) (hh : (8190 + i) / 4096 = 1)
      (hpos : (8190 + i) % 4096 = pos) : byteAt out i = byteAt twoBlocks.bytes pos := by
    have hblock : (8190 + i) / twoBlocksVolume.device.blockSize = 1 := hh
    have hplace : (8190 + i) % twoBlocksVolume.device.blockSize = pos := hpos
    obtain ⟨mapping, hmap', hx⟩ := (hbytes i hi).written _ List.mem_cons_self
      (by rw [hblock]; decide) rfl
    rw [hblock] at hmap'
    have hphysical : mapping.physical = 0 := by
      cases hmap.symm.trans hmap'
      rfl
    rw [hx, hplace, hphysical, Nat.zero_mul, Nat.zero_add, twoBlocks_mounted.device]
  refine ⟨out, hout, ?_, ?_, ?_⟩
  · rw [hwritten 0 4094 (by decide) (by decide) rfl]
    exact hbyte (f := ⟨4094, 1, 7⟩) (by decide) rfl
  · rw [hwritten 1 4095 (by decide) (by decide) rfl]
    exact hbyte (f := ⟨4095, 1, 8⟩) (by decide) rfl
  · exact ((hbytes 2 (by decide)).hole (by decide)).2

end Volume

end XfsVolume
