import XfsVolume.Proofs.Directory.Reading
import XfsVolume.Proofs.Image.Placement

/-!
# Directory blocks read back

A reader maps the blocks of a directory one by one, or reads them at once where they lie in one
extent. It finds in either way what was placed there.
-/

namespace XfsVolume

namespace Medium

variable {m : Medium} {b : Builder} {spare : Nat → Prop} {dir : Inode} {extents : List Extent}
  {data : ByteArray} {fb : Nat}

/-- A block that is mapped to data is found there by the map of the fork. -/
theorem Maps.mapBlock_eq (h : m.Maps b.options extents fb data) (hk : m.Keeps spare b)
    (hf : m.ForkHolds dir extents) : ∃ mapping, m.mapBlock dir fb = .ok mapping ∧
      mapping.physical < m.device.blockCount ∧ m.device.block mapping.physical = data := by
  obtain ⟨e, he, hh, ag, agBlock, hrun, rfl⟩ := h
  have hpos := hf.inOrder.nonempty e he
  have hplaced := hk.placed hrun hpos
  have hinside := hplaced.inDevice
  have hlow := hh.1
  have hhigh := hh.2
  refine ⟨_, hf.mapBlock_eq hk.sized he hplaced hh, ?_, ?_⟩
  · dsimp only
    omega
  · rw [hk.measures.groupBlock]

theorem dirBlockPieces_eq (hs : m.device.Sized) (count : Nat) :
    ∀ {k : Nat}, (k + count) * imageBlockSize ≤ data.size →
      (∀ j, k ≤ j → j < k + count → ∃ mapping, m.mapBlock dir (fb + j) = .ok mapping ∧
        mapping.physical < m.device.blockCount ∧ m.device.block mapping.physical =
          window data (j * imageBlockSize) imageBlockSize) →
      m.dirBlockPieces dir fb count k =
        .ok (window data (k * imageBlockSize) (count * imageBlockSize)) := by
  induction count with
  | zero =>
    intro k hsize _
    have hempty : window data (k * imageBlockSize) (0 * imageBlockSize) = ByteArray.empty := by
      apply bytes_ext
      · rw [size_window_of_le]
        · rw [Nat.zero_mul]
          rfl
        · rwa [← Nat.add_mul]
      · intro i hi
        rw [size_window] at hi
        omega
    rw [hempty]
    rfl
  | succ count ih =>
    intro k hsize hmapped
    obtain ⟨mapping, hmap, hin, hpiece⟩ := hmapped k (Nat.le_refl k) (by omega)
    have hrest := ih (k := k + 1) (by rwa [Nat.add_right_comm]) fun j hlow hhigh =>
      hmapped j (by omega) (by omega)
    have hend : k * imageBlockSize + imageBlockSize ≤ data.size := by
      rw [imageBlockSize] at hsize ⊢
      omega
    rw [dirBlockPieces, hmap, mapError_ok, ok_bind, readBlock_eq hs hin, ok_bind, hrest, ok_bind,
      hpiece]
    have hnext : (k + 1) * imageBlockSize = k * imageBlockSize + imageBlockSize := Nat.succ_mul _ _
    have hlength : (count + 1) * imageBlockSize = imageBlockSize + count * imageBlockSize := by
      rw [Nat.succ_mul, Nat.add_comm]
    rw [hnext, hlength, ← window_append_window _ _ _ hend]
    rfl

theorem span_eq_of_blocks (hblock : m.device.blockSize = imageBlockSize) {start count : Nat}
    (hin : start + count ≤ m.device.blockCount) (hsize : data.size = count * imageBlockSize)
    (h : ∀ j < count, m.device.block (start + j) =
      window data (j * imageBlockSize) imageBlockSize) : m.device.span start count = data := by
  have hspan : (m.device.span start count).size = count * imageBlockSize := by
    rw [Device.size_span hin, hblock]
  apply bytes_ext (hspan.trans hsize.symm)
  intro i hi
  rw [hspan] at hi
  have hj : i / imageBlockSize < count := (Nat.div_lt_iff_lt_mul (by decide)).mpr hi
  have hr : i % imageBlockSize < imageBlockSize := Nat.mod_lt _ (by decide)
  have hplace : i = i / imageBlockSize * imageBlockSize + i % imageBlockSize :=
    (Nat.div_add_mod' i imageBlockSize).symm
  have hpart := h _ hj
  rw [block_of_span hblock hj] at hpart
  have hbyte : byteAt (window (m.device.span start count) _ _) (i % imageBlockSize) =
      byteAt (window data _ _) (i % imageBlockSize) := congrArg (byteAt · _) hpart
  rwa [byteAt_window hr, byteAt_window hr, ← hplace] at hbyte

theorem dirBlock_of_maps (hk : m.Keeps spare b) (hf : m.ForkHolds dir extents)
    (hsize : data.size = b.options.dirBlockSize)
    (hmaps : ∀ j < b.options.blocksPerDirBlock, m.Maps b.options extents (fb + j)
      (window data (j * imageBlockSize) imageBlockSize)) : m.dirBlock dir fb = .ok data := by
  have hcount := b.options.blocksPerDirBlock_pos
  have hrun := hk.measures.blocksPerDirBlock
  rw [b.options.dirBlockSize_eq] at hsize
  obtain ⟨e, he, hh, ag, agBlock, hplace, -⟩ := hmaps 0 hcount
  rw [Nat.add_zero] at hh
  have hfits := hf.inOrder.fits e he
  have hplaced := hk.placed hplace (hf.inOrder.nonempty e he)
  have hinside := hplaced.inDevice
  have hlow := hh.1
  rw [dirBlock_eq, (hf.findExtent_eq hk.sized fb).1 e he hh, mapError_ok, ok_bind, hrun]
  split
  · rename_i hone
    rw [hfits.stop_eq] at hone
    have hend : m.geometry.groupBlock ag agBlock + (fb - e.start) + b.options.blocksPerDirBlock ≤
        m.device.blockCount := by omega
    rw [hplaced.mappingIn_eq hfits hh, ok_bind]
    dsimp only
    rw [if_neg (Nat.not_lt.mpr hend), readBlocks_eq hk.sized hcount hend]
    congr 1
    apply span_eq_of_blocks hk.blockSize hend hsize
    intro j hj
    have hholds : e.Holds (fb + j) := ⟨by omega, by omega⟩
    obtain ⟨mapping, hmap, -, hpiece⟩ := (hmaps j hj).mapBlock_eq hk hf
    rw [hf.mapBlock_eq hk.sized he hplaced hholds] at hmap
    cases hmap
    rw [← hpiece]
    dsimp only
    congr 1
    omega
  · have hall : (0 + b.options.blocksPerDirBlock) * imageBlockSize ≤ data.size := by
      rw [Nat.zero_add]
      exact Nat.le_of_eq hsize.symm
    rw [dirBlockPieces_eq hk.sized _ hall fun j _ hj =>
      (hmaps j (by omega)).mapBlock_eq hk hf, Nat.zero_mul, window_self _ (Nat.le_of_eq hsize)]

end Medium

end XfsVolume
