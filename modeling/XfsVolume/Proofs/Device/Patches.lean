import Mathlib.Data.List.Induction
import XfsVolume.Proofs.Volume.FileData

/-!
# Patched devices

A device is patched in place, any number of times. A patch is carried out when it lies inside the
device, and is refused otherwise; neither changes the device's length or its blocks. So each byte is
what the last patch that was carried out there wrote, or as it was in the beginning
(`patchedByte`), and a range of blocks that is read is its blocks, one after the other, made of
these bytes.
-/

namespace XfsVolume

/-- Bytes to be written from byte `offset` of a device on. -/
structure Patch where
  offset : Nat
  data : ByteArray

namespace Patch

def stop (p : Patch) : Nat := p.offset + p.data.size

/-- The patch writes byte `i` of a device of `len` bytes: it lies inside the device, and the byte
lies inside it. -/
def Writes (p : Patch) (len i : Nat) : Prop := p.stop ≤ len ∧ p.offset ≤ i ∧ i < p.stop

instance (p : Patch) (len i : Nat) : Decidable (p.Writes len i) :=
  inferInstanceAs (Decidable (_ ∧ _ ∧ _))

theorem writes_iff {p : Patch} {len i : Nat} (h : p.stop ≤ len) :
    p.Writes len i ↔ p.offset ≤ i ∧ i < p.stop := and_iff_right h

end Patch

/-- Byte `i` of `bytes` after `patches`, the oldest of them first: what the last patch that writes it
put there, and the byte as it was where none does. -/
def patchedByte (bytes : ByteArray) (patches : List Patch) (i : Nat) : UInt8 :=
  match patches.reverse.find? fun p => p.Writes bytes.size i with
  | some p => byteAt p.data (i - p.offset)
  | none => byteAt bytes i

theorem patchedByte_nil (bytes : ByteArray) (i : Nat) : patchedByte bytes [] i = byteAt bytes i :=
  rfl

theorem patchedByte_concat (bytes : ByteArray) (patches : List Patch) (p : Patch) (i : Nat) :
    patchedByte bytes (patches ++ [p]) i =
      if p.Writes bytes.size i then byteAt p.data (i - p.offset)
      else patchedByte bytes patches i := by
  rw [patchedByte, List.reverse_append, List.reverse_singleton, List.singleton_append,
    List.find?_cons]
  by_cases h : p.Writes bytes.size i
  · rw [decide_eq_true h, if_pos h]
  · rw [decide_eq_false h, if_neg h]
    rfl

theorem patchRange_eq_ok {bytes data out : ByteArray} {off : Nat} (hs : bytes.size < wordLimit) :
    patchRange bytes off data = .ok out ↔
      off + data.size ≤ bytes.size ∧ out = overwrite bytes off data := by
  simp only [patchRange, checkRange, bind_eq_ok, ite_error_eq_ok, pure_eq_ok]
  constructor
  · rintro ⟨-, ⟨-, hend, -⟩, heq⟩
    exact ⟨Nat.not_lt.mp hend, (Except.ok.inj heq).symm⟩
  · rintro ⟨hend, rfl⟩
    exact ⟨(), ⟨by omega, by omega, trivial⟩, rfl⟩

namespace Device

/-- The device after a patch; one that is refused leaves it as it is. -/
def afterPatch (dev : Device) (p : Patch) : Device :=
  match dev.patch p.offset p.data with
  | .ok patched => patched
  | .error _ => dev

/-- The device after `patches`, the oldest of them first. -/
def afterPatches (dev : Device) (patches : List Patch) : Device := patches.foldl afterPatch dev

variable {dev : Device}

theorem patch_eq_ok (hs : dev.Sized) {p : Patch} {patched : Device} :
    dev.patch p.offset p.data = .ok patched ↔
      p.stop ≤ dev.bytes.size ∧
        patched = { dev with bytes := overwrite dev.bytes p.offset p.data } := by
  simp only [patch, bind_eq_ok, patchRange_eq_ok hs, pure_eq_ok]
  constructor
  · rintro ⟨bytes, ⟨hend, rfl⟩, heq⟩
    exact ⟨hend, (Except.ok.inj heq).symm⟩
  · rintro ⟨hend, rfl⟩
    exact ⟨_, ⟨hend, rfl⟩, rfl⟩

theorem afterPatch_of_inside (hs : dev.Sized) {p : Patch} (h : p.stop ≤ dev.bytes.size) :
    dev.afterPatch p = { dev with bytes := overwrite dev.bytes p.offset p.data } := by
  rw [afterPatch, (patch_eq_ok hs).mpr ⟨h, rfl⟩]

theorem afterPatch_of_outside (hs : dev.Sized) {p : Patch} (h : ¬ p.stop ≤ dev.bytes.size) :
    dev.afterPatch p = dev := by
  rw [afterPatch]
  cases hpatch : dev.patch p.offset p.data with
  | ok patched => exact absurd ((patch_eq_ok hs).mp hpatch).1 h
  | error fault => rfl

/-- `dev'` is `dev` after `patches`: it has the same blocks, and each byte is what the last patch
that wrote it put there. -/
structure PatchedTo (dev : Device) (patches : List Patch) (dev' : Device) : Prop where
  blockSize : dev'.blockSize = dev.blockSize
  size : dev'.bytes.size = dev.bytes.size
  byte : ∀ i, byteAt dev'.bytes i = patchedByte dev.bytes patches i

theorem PatchedTo.afterPatch {patches : List Patch} {dev' : Device} (hs : dev.Sized)
    (h : dev.PatchedTo patches dev') (p : Patch) :
    dev.PatchedTo (patches ++ [p]) (dev'.afterPatch p) := by
  have hs' : dev'.Sized := by rwa [Sized, h.size]
  by_cases hin : p.stop ≤ dev'.bytes.size
  · rw [afterPatch_of_inside hs' hin]
    refine ⟨h.blockSize, (size_overwrite hin).trans h.size, fun i => ?_⟩
    rw [patchedByte_concat, byteAt_overwrite hin, h.byte i]
    rw [h.size] at hin
    exact if_congr (Patch.writes_iff hin).symm rfl rfl
  · rw [afterPatch_of_outside hs' hin]
    refine ⟨h.blockSize, h.size, fun i => ?_⟩
    have hnot : ¬ p.Writes dev.bytes.size i := fun hw => hin (h.size ▸ hw.1)
    rw [patchedByte_concat, if_neg hnot, h.byte i]

theorem patchedTo_afterPatches (hs : dev.Sized) (patches : List Patch) :
    dev.PatchedTo patches (dev.afterPatches patches) := by
  induction patches using List.reverseRecOn with
  | nil => exact ⟨rfl, rfl, fun i => (patchedByte_nil dev.bytes i).symm⟩
  | append_singleton patches p ih =>
    rw [afterPatches, List.foldl_append]
    exact ih.afterPatch hs p

/-! ## Blocks one by one -/

theorem mapM_readBlock (hs : dev.Sized) : ∀ {start count : Nat},
    start + count ≤ dev.blockCount →
      (List.range' start count).mapM dev.readBlock = .ok ((List.range' start count).map dev.block)
  | _, 0, _ => rfl
  | start, count + 1, h => by
      have hblock : dev.readBlock start = .ok (dev.block start) :=
        readBlocks_eq hs Nat.one_pos (by omega)
      rw [List.range'_succ, List.mapM_cons, hblock, ok_bind, mapM_readBlock hs (by omega)]
      rfl

theorem span_eq_joinBytes : ∀ {start count : Nat}, start + count ≤ dev.blockCount →
    dev.span start count = joinBytes ((List.range' start count).map dev.block)
  | start, 0, _ => by
      rw [span, Nat.zero_mul, window, Nat.add_zero, ByteArray.extract_eq_empty_iff.mpr (by omega)]
      rfl
  | start, count + 1, h => by
      rw [span_succ (by omega), span_eq_joinBytes (by omega), List.range'_succ, List.map_cons,
        joinBytes_cons]

theorem ofBytes_two_pow {bytes : ByteArray} {k : Nat} (h : 2 ^ k ∣ bytes.size) :
    ofBytes bytes (2 ^ k) = .ok { bytes, blockSize := 2 ^ k } := by
  refine ofBytes_eq_ok.mpr ⟨?_, Nat.mod_eq_zero_of_dvd h, rfl⟩
  rw [isPowerOfTwo, Nat.log2_two_pow, Nat.one_shiftLeft, beq_self_eq_true, Bool.and_true,
    bne_iff_ne]
  exact Nat.ne_of_gt (Nat.two_pow_pos k)

/-- **Blocks of a patched device.** A device of any content is patched any number of times. A patch
is carried out exactly when it lies inside the device, and one that is refused changes no byte. What
is left is a device of the same blocks, and reading a range of them succeeds exactly when the range
has a block and lies inside the device. It gives the blocks of the range, one after the other, each
byte of which is what the last patch that was carried out there wrote, or what it was in the
beginning. -/
theorem readBlocks_afterPatches {initial : ByteArray} (hs : initial.size < wordLimit) {k : Nat}
    (hblocks : 2 ^ k ∣ initial.size) (patches : List Patch) :
    ∃ dev, ofBytes initial (2 ^ k) = .ok dev ∧
      ofBytes (dev.afterPatches patches).bytes (2 ^ k) = .ok (dev.afterPatches patches) ∧
      (∀ p : Patch,
        ((∃ patched, (dev.afterPatches patches).patch p.offset p.data = .ok patched) ↔
          p.stop ≤ initial.size) ∧
        (¬ p.stop ≤ initial.size → ∀ i, byteAt (dev.afterPatches (patches ++ [p])).bytes i =
          byteAt (dev.afterPatches patches).bytes i)) ∧
      ∀ start count,
        ((∃ data, (dev.afterPatches patches).readBlocks start count = .ok data) ↔
          1 ≤ count ∧ start + count ≤ initial.size / 2 ^ k) ∧
        ∀ data, (dev.afterPatches patches).readBlocks start count = .ok data →
          (∃ blocks, (List.range' start count).mapM (dev.afterPatches patches).readBlock =
            .ok blocks ∧ data = joinBytes blocks) ∧
          data.size = count * 2 ^ k ∧
          ∀ i < data.size, byteAt data i = patchedByte initial patches (start * 2 ^ k + i) := by
  obtain ⟨dev, hdev⟩ : ∃ dev : Device, dev = { bytes := initial, blockSize := 2 ^ k } := ⟨_, rfl⟩
  have hbytes : dev.bytes = initial := by rw [hdev]
  have hblock : dev.blockSize = 2 ^ k := by rw [hdev]
  have hsized : dev.Sized := by rwa [Sized, hbytes]
  have hpatched := patchedTo_afterPatches hsized patches
  have hmore (p : Patch) : dev.afterPatches (patches ++ [p]) =
      (dev.afterPatches patches).afterPatch p := List.foldl_append
  refine ⟨dev, by rw [ofBytes_two_pow hblocks, hdev], ?_⟩
  generalize dev.afterPatches patches = patched at hpatched hmore ⊢
  have hsizedAfter : patched.Sized := by rwa [Sized, hpatched.size]
  have hlength : patched.bytes.size = initial.size := by rw [hpatched.size, hbytes]
  have hblockAfter : patched.blockSize = 2 ^ k := hpatched.blockSize.trans hblock
  have hcount : patched.blockCount = initial.size / 2 ^ k := by
    rw [blockCount, hlength, hblockAfter]
  refine ⟨?_, fun p => ⟨?_, fun hout i => ?_⟩, fun start count => ⟨?_, fun data hdata => ?_⟩⟩
  · rw [ofBytes_two_pow (by rwa [hlength]), ← hblockAfter]
  · simp only [patch_eq_ok hsizedAfter, exists_and_left, exists_eq, and_true, hlength]
  · rw [hmore, afterPatch_of_outside hsizedAfter (by rwa [hlength])]
  · simp only [readBlocks_eq_ok hsizedAfter, exists_and_left, exists_eq, and_true, hcount]
    rfl
  · obtain ⟨-, hin, rfl⟩ := (readBlocks_eq_ok hsizedAfter).mp hdata
    refine ⟨⟨_, mapM_readBlock hsizedAfter hin, span_eq_joinBytes hin⟩, ?_, fun i hi => ?_⟩
    · rw [size_span hin, hblockAfter]
    · rw [size_span hin] at hi
      rw [span, byteAt_window hi, hpatched.byte, hbytes, hblockAfter]

/-- Eight bytes in blocks of four after three patches, of which the second is refused and the last
writes over a byte of the first. -/
theorem readBlocks_patchedTwice :
    (zeros 8).size < wordLimit ∧ 2 ^ 2 ∣ (zeros 8).size ∧
      ∃ dev data, ofBytes (zeros 8) 4 = .ok dev ∧
        (dev.afterPatches [⟨1, filled 3 5⟩, ⟨6, filled 3 9⟩, ⟨2, filled 1 7⟩]).readBlocks 0 2 =
          .ok data ∧
        data.size = 8 ∧ ∀ i < 8, byteAt data i = [0, 5, 7, 5, 0, 0, 0, 0].getD i 0 := by
  have hs : (zeros 8).size < wordLimit := by decide
  have hblocks : 2 ^ 2 ∣ (zeros 8).size := by decide
  obtain ⟨dev, hdev, -, -, hread⟩ := readBlocks_afterPatches hs hblocks
    [⟨1, filled 3 5⟩, ⟨6, filled 3 9⟩, ⟨2, filled 1 7⟩]
  obtain ⟨hreads, hdata⟩ := hread 0 2
  obtain ⟨data, hok⟩ := hreads.mpr (by decide)
  obtain ⟨-, hsize, hbytes⟩ := hdata data hok
  refine ⟨hs, hblocks, dev, data, hdev, hok, hsize, fun i hi => ?_⟩
  rw [hbytes i (by omega)]
  revert i
  decide

end Device

end XfsVolume
