import XfsVolume.Proofs.Extent.Linear
import XfsVolume.Proofs.Volume.Mount
import XfsVolume.Volume.Data

/-!
# Pieces of a read

A read of a mapped fork is put together from pieces. A piece goes over one missing block or along
one extent, as far as the extent and the read go and for at most `maxRun` blocks. What a piece is
made of, how long it is and how many blocks of the device it takes is settled here
(`pieceLength`, `runLength`), for any volume whose blocks are those of its device (`Blocked`).
-/

namespace XfsVolume

/-! ## Places in a file -/

theorem block_add {bs : Nat} (hbs : 0 < bs) (offset i : Nat) :
    (offset + i) / bs = offset / bs + (offset % bs + i) / bs := by
  conv_lhs => rw [← Nat.div_add_mod offset bs, Nat.add_assoc, Nat.mul_add_div hbs]

theorem inBlock_add (bs offset i : Nat) : (offset + i) % bs = (offset % bs + i) % bs := by
  rw [Nat.mod_add_mod]

theorem block_lt {bs : Nat} (offset i count : Nat) (hbs : 0 < bs)
    (h : offset % bs + i < count * bs) : (offset + i) / bs < offset / bs + count := by
  have hlt : (offset % bs + i) / bs < count := (Nat.div_lt_iff_lt_mul hbs).mpr h
  rw [block_add hbs]
  omega

/-- A byte within the rest of the block of `offset` lies in that block. -/
theorem block_same {bs : Nat} (hbs : 0 < bs) {offset i : Nat} (h : offset % bs + i < bs) :
    (offset + i) / bs = offset / bs := by
  rw [block_add hbs, Nat.div_eq_of_lt h, Nat.add_zero]

namespace Volume

variable {v : Volume} {inode : Inode}

/-- A volume whose blocks are those of its device. -/
structure Blocked (v : Volume) : Prop where
  sized : v.device.Sized
  blockSize : v.geometry.blockSize.toNat = v.device.blockSize
  nonempty : 0 < v.device.blockSize

theorem Mounted.blocked {dev : Device} {options : MountOptions} (hm : v.Mounted dev options)
    (hs : dev.Sized) : v.Blocked where
  sized := by
    rw [hm.device]
    exact hs
  blockSize := by rw [hm.supported, hm.device, hm.blockSize]
  nonempty := by
    rw [hm.device, hm.blockSize]
    decide

/-! ## What a piece is -/

/-- Length of the piece of a read at byte `offset` that goes along extent `e`. -/
def pieceLength (v : Volume) (e : Extent) (offset remaining : Nat) : Nat :=
  let bs := v.device.blockSize
  min (min (e.stop - offset / bs) maxRun * bs - offset % bs) remaining

/-- Blocks that the piece of a read at byte `offset` takes from extent `e`. -/
def runLength (v : Volume) (e : Extent) (offset remaining : Nat) : Nat :=
  let bs := v.device.blockSize
  let len := min (min (e.stop - offset / bs) maxRun * bs - offset % bs) remaining
  (offset % bs + len + bs - 1) / bs

/-- A piece over a missing block ends with it. -/
theorem Blocked.readRun_of_missing (h : v.Blocked) {offset remaining l : Nat}
    (hfind : v.findExtent inode (offset / v.device.blockSize) = .error (.extentNotFound l)) :
    v.readRun inode offset remaining = .ok
      (zeros (min (v.device.blockSize - offset % v.device.blockSize) remaining)) := by
  rw [readRun, h.blockSize]
  simp only [hfind]
  rfl

/-- Any other fault of the look-up is that of the piece. -/
theorem readRun_of_fault {offset remaining : Nat} {fault : Fault}
    (hfind : v.findExtent inode (offset / v.geometry.blockSize.toNat) = .error fault)
    (hother : ∀ l, fault ≠ .extentNotFound l) :
    v.readRun inode offset remaining = .error fault := by
  rw [readRun]
  simp only [hfind]
  cases fault with
  | extentNotFound l => exact absurd rfl (hother l)
  | _ => rfl

/-- A piece along an extent is zeros, or a window onto the blocks that are read for it. -/
theorem Blocked.readRun_of_found (h : v.Blocked) {offset remaining : Nat} {e : Extent}
    (hfind : v.findExtent inode (offset / v.device.blockSize) = .ok e) :
    v.readRun inode offset remaining =
      if e.unwritten then .ok (zeros (v.pieceLength e offset remaining)) else
        v.mappingIn e (offset / v.device.blockSize) >>= fun mapping =>
          v.readBlocks mapping.physical (v.runLength e offset remaining) >>= fun blocks =>
            .ok (window blocks (offset % v.device.blockSize) (v.pieceLength e offset remaining)) := by
  rw [readRun, h.blockSize]
  simp only [hfind]
  rfl

/-! ## How far it goes -/

variable {e : Extent} {offset remaining : Nat}

/-- The bytes of a piece lie in the blocks that it takes. -/
theorem Blocked.pieceLength_le (h : v.Blocked) (e : Extent) (offset remaining : Nat) :
    offset % v.device.blockSize + v.pieceLength e offset remaining ≤
      v.runLength e offset remaining * v.device.blockSize := by
  have hup := Nat.lt_div_mul_add (a := offset % v.device.blockSize +
    v.pieceLength e offset remaining + v.device.blockSize - 1) h.nonempty
  rw [show v.runLength e offset remaining = (offset % v.device.blockSize +
    v.pieceLength e offset remaining + v.device.blockSize - 1) / v.device.blockSize from rfl]
  omega

theorem run_pos {first : Nat} (hcovers : e.covers first = true) :
    0 < min (e.stop - first) maxRun := by
  obtain ⟨-, hstop⟩ := Extent.covers_iff_stop.mp hcovers
  exact Nat.lt_min.mpr ⟨by omega, by decide⟩

theorem Blocked.pieceLength_bounds (h : v.Blocked)
    (hcovers : e.covers (offset / v.device.blockSize) = true) (hmore : 0 < remaining) :
    0 < v.pieceLength e offset remaining ∧ v.pieceLength e offset remaining ≤ remaining := by
  have hroom := Nat.le_mul_of_pos_left v.device.blockSize (run_pos hcovers)
  have hin := Nat.mod_lt offset h.nonempty
  rw [pieceLength]
  omega

/-- A run has at least one block, and no more than are left of the extent or are read at a time. -/
theorem Blocked.runLength_bounds (h : v.Blocked)
    (hcovers : e.covers (offset / v.device.blockSize) = true) (hmore : 0 < remaining) :
    0 < v.runLength e offset remaining ∧
      v.runLength e offset remaining ≤ min (e.stop - offset / v.device.blockSize) maxRun := by
  have hrun := run_pos hcovers
  have hbs := h.nonempty
  rw [runLength]
  generalize min (e.stop - offset / v.device.blockSize) maxRun = run at hrun ⊢
  have hroom := Nat.le_mul_of_pos_left v.device.blockSize hrun
  have hin := Nat.mod_lt offset hbs
  generalize v.device.blockSize = bs at hbs hroom hin ⊢
  generalize offset % bs = inBlock at hin ⊢
  refine ⟨Nat.div_pos (by omega) hbs, ?_⟩
  calc (inBlock + min (run * bs - inBlock) remaining + bs - 1) / bs
      ≤ (run * bs + (bs - 1)) / bs := Nat.div_le_div_right (by omega)
    _ = run := (digits_eq run (by omega)).1

/-- The extent covers the block of each byte of a piece. -/
theorem Blocked.covers_of_lt_pieceLength (h : v.Blocked)
    (hcovers : e.covers (offset / v.device.blockSize) = true) {i : Nat}
    (hi : i < v.pieceLength e offset remaining) :
    e.covers ((offset + i) / v.device.blockSize) = true := by
  have hle : offset / v.device.blockSize ≤ (offset + i) / v.device.blockSize :=
    Nat.div_le_div_right (Nat.le_add_right _ _)
  rw [pieceLength] at hi
  have hlt := block_lt offset i (min (e.stop - offset / v.device.blockSize) maxRun) h.nonempty
    (by omega)
  rw [Extent.covers_iff_stop] at hcovers ⊢
  omega

/-- A byte of the blocks from `first` on lies as far behind `first` as it does in the file. -/
theorem byteAt_blocks {dev : Device} (hbs : 0 < dev.blockSize) {first count offset len i : Nat}
    (hi : i < len) (hin : offset % dev.blockSize + i < count * dev.blockSize) :
    byteAt (window (dev.span first count) (offset % dev.blockSize) len) i =
      byteAt dev.bytes
        ((first + ((offset + i) / dev.blockSize - offset / dev.blockSize)) * dev.blockSize +
          (offset + i) % dev.blockSize) := by
  have hsplit := Nat.div_add_mod (offset % dev.blockSize + i) dev.blockSize
  rw [Nat.mul_comm] at hsplit
  rw [byteAt_window hi, Device.span, byteAt_window hin, block_add hbs, inBlock_add,
    Nat.add_sub_cancel_left, Nat.add_mul, Nat.add_assoc, hsplit]

end Volume

end XfsVolume
