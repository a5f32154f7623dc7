import Mathlib.Data.List.Nodup
import XfsVolume.Image.Directory
import XfsVolume.Proofs.Image.IndexLevels

/-!
# Where the blocks of a directory stand

Data blocks stand one behind the other from the start of the file, index blocks from the start of
their region, and the block of free lengths at the start of its own (`StandBetween`). So no two of
them overlap, and the file ends where the last region with a block in it does (`DirLayout.stop`),
which is how a reader tells the formats apart.
-/

namespace XfsVolume

/-- The format in which a reader finds a directory of this layout. -/
def DirLayout.format : DirLayout → DirFormat
  | .inline => .inline
  | .block => .block
  | .leaf _ => .leaf
  | .node _ _ _ => .node

/-- An index, where the layout has one of several blocks, fits its region. -/
def DirLayout.Fits (layout : DirLayout) (o : ImageOptions) (names : Nat) : Prop :=
  match layout with
  | .node _ leafCapacity fanout => IndexFits o leafCapacity fanout names
  | _ => True

/-- First file block behind the blocks of a directory. -/
def DirLayout.stop (layout : DirLayout) (o : ImageOptions) : Nat :=
  match layout with
  | .inline | .block => o.blocksPerDirBlock
  | .leaf _ => o.indexBlock 0 + o.blocksPerDirBlock
  | .node _ _ _ => o.freeBlock + o.blocksPerDirBlock

namespace ImageOptions

variable {o : ImageOptions}

theorem Accepted.blocksPerDirBlock_le (h : o.Accepted) : o.blocksPerDirBlock ≤ 16 := by
  rw [o.blocksPerDirBlock_eq]
  exact Nat.pow_le_pow_right (by decide) h.dirBlockLog

theorem Accepted.blocksPerDirBlock_dvd (h : o.Accepted) {k : Nat} (hk : 4 ≤ k) :
    o.blocksPerDirBlock ∣ 2 ^ k := by
  rw [o.blocksPerDirBlock_eq]
  exact Nat.pow_dvd_pow 2 (Nat.le_trans h.dirBlockLog hk)

end ImageOptions

/-- No directory is so long that its blocks could not be numbered. -/
theorem DirLayout.stop_le {o : ImageOptions} (ho : o.Accepted) (layout : DirLayout) :
    layout.stop o ≤ 2 ^ 24 + 16 := by
  have hrun := ho.blocksPerDirBlock_le
  have hindex := o.indexBlock_eq 0
  have hfree := o.freeBlock_eq
  cases layout <;> rw [DirLayout.stop] <;> omega

/-- Directory blocks that stand at different multiples of their length, from `low` on and up to
`high`. -/
structure StandBetween (o : ImageOptions) (low high : Nat) (blocks : PlacedBlocks) : Prop where
  distinct : (blocks.map Prod.fst).Nodup
  whole : ∀ x ∈ blocks, o.blocksPerDirBlock ∣ x.1
  low_le : ∀ x ∈ blocks, low ≤ x.1
  stop_le : ∀ x ∈ blocks, x.1 + o.blocksPerDirBlock ≤ high

namespace StandBetween

variable {o : ImageOptions} {low mid high : Nat} {blocks later : PlacedBlocks}

/-- Such blocks do not overlap. -/
theorem apart (h : StandBetween o low high blocks) : blocks.Pairwise fun x y =>
    x.1 + o.blocksPerDirBlock ≤ y.1 ∨ y.1 + o.blocksPerDirBlock ≤ x.1 := by
  have hnodup := h.distinct
  rw [List.Nodup, List.pairwise_map] at hnodup
  refine hnodup.imp_of_mem fun {x y} hx hy hne => ?_
  obtain ⟨i, hi⟩ := h.whole x hx
  obtain ⟨j, hj⟩ := h.whole y hy
  rw [hi, hj] at hne ⊢
  rcases Nat.lt_trichotomy i j with hlt | rfl | hlt
  · exact Or.inl (Nat.mul_le_mul_left _ hlt)
  · exact absurd rfl hne
  · exact Or.inr (Nat.mul_le_mul_left _ hlt)

theorem singleton {fb : Nat} (hdvd : o.blocksPerDirBlock ∣ fb) (data : ByteArray) :
    StandBetween o fb (fb + o.blocksPerDirBlock) [(fb, data)] where
  distinct := List.nodup_singleton _
  whole x hx := by rwa [List.mem_singleton.mp hx]
  low_le x hx := by rw [List.mem_singleton.mp hx]
  stop_le x hx := by rw [List.mem_singleton.mp hx]

/-- The blocks of one region and those of the region behind it. -/
theorem append (h : StandBetween o low mid blocks) (h' : StandBetween o mid high later)
    (hlow : low ≤ mid) (hhigh : mid ≤ high) : StandBetween o low high (blocks ++ later) where
  distinct := by
    rw [List.map_append]
    refine List.nodup_append.mpr ⟨h.distinct, h'.distinct, fun fb hfb fb' hfb' => ?_⟩
    obtain ⟨x, hx, rfl⟩ := List.mem_map.mp hfb
    obtain ⟨y, hy, rfl⟩ := List.mem_map.mp hfb'
    have hbefore := h.stop_le x hx
    have hbehind := h'.low_le y hy
    have hpos := o.blocksPerDirBlock_pos
    omega
  whole x hx := (List.mem_append.mp hx).elim (h.whole x) (h'.whole x)
  low_le x hx := (List.mem_append.mp hx).elim (h.low_le x) fun hx => hlow.trans (h'.low_le x hx)
  stop_le x hx := (List.mem_append.mp hx).elim (fun hx => (h.stop_le x hx).trans hhigh)
    (h'.stop_le x)

end StandBetween

section

variable {o : ImageOptions} {owner n : Nat} {entries : List EntryDraft} {layout : DirLayout}
  {blocks : PlacedBlocks}

/-- Data blocks stand before the index region. -/
theorem DataRegion.Holds.stands {region : DataRegion} (h : region.Holds o entries)
    (ho : o.Accepted) : StandBetween o 0 (2 ^ 23) region.blocks := by
  have hinj : Function.Injective (· * o.blocksPerDirBlock) := fun i j hij =>
    Nat.eq_of_mul_eq_mul_right o.blocksPerDirBlock_pos hij
  have hwhole : ∀ x ∈ region.blocks, o.blocksPerDirBlock ∣ x.1 := by
    intro x hx
    have hin : x.1 ∈ region.blocks.map Prod.fst := List.mem_map_of_mem hx
    rw [h.places] at hin
    obtain ⟨i, -, hi⟩ := List.mem_map.mp hin
    exact ⟨i, by rw [← hi, Nat.mul_comm]⟩
  refine ⟨?_, hwhole, fun x _ => Nat.zero_le _, fun x hx => ?_⟩
  · rw [h.places]
    exact List.nodup_range.map hinj
  · have hbefore := (h.block x hx).2
    exact Nat.le_of_lt_add_of_dvd (Nat.add_lt_add_right hbefore _)
      (Nat.dvd_add_self_right.mpr (hwhole x hx)) (ho.blocksPerDirBlock_dvd (by decide))

theorem stands_indexBlocks (ho : o.Accepted) {hashes : List HashEntry} {capacity fanout : Nat}
    {index : PlacedBlocks} (h : indexBlocks o owner hashes capacity fanout = .ok index)
    (hroom : o.indexBlock (indexLevelSizes capacity fanout hashes.length).sum ≤ o.freeBlock) :
    StandBetween o (2 ^ 23) (2 ^ 24) index := by
  have hplace : ∀ x ∈ index, ∃ i, o.indexBlock i = x.1 ∧ 2 ^ 23 ≤ o.indexBlock i ∧
      o.indexBlock i + o.blocksPerDirBlock ≤ 2 ^ 24 := by
    intro x hx
    obtain ⟨i, hi, heq⟩ := (mem_indexBlocks_iff ho h).mp (List.mem_map_of_mem hx)
    exact ⟨i, heq, indexBlock_bounds_of_lt hroom hi⟩
  refine ⟨nodup_indexBlocks ho h, fun x hx => ?_, fun x hx => ?_, fun x hx => ?_⟩
  · obtain ⟨i, heq, -⟩ := hplace x hx
    rw [← heq, o.indexBlock_eq]
    exact Nat.dvd_add (ho.blocksPerDirBlock_dvd (by decide)) (Nat.dvd_mul_left _ _)
  · obtain ⟨i, heq, hlow, -⟩ := hplace x hx
    rwa [← heq]
  · obtain ⟨i, heq, -, hhigh⟩ := hplace x hx
    rwa [← heq]

theorem stands_directoryBlocks (ho : o.Accepted)
    (h : directoryBlocks o owner entries layout = .ok (blocks, n))
    (hfits : layout.Fits o entries.length) : StandBetween o 0 (layout.stop o) blocks := by
  cases layout with
  | inline | block =>
    simp only [directoryBlocks, bind_eq_ok, pure_eq_ok] at h
    obtain ⟨block, -, heq⟩ := h
    cases heq
    have hblock := StandBetween.singleton (Nat.dvd_zero o.blocksPerDirBlock) block
    rwa [Nat.zero_add] at hblock
  | leaf perBlock =>
    simp only [directoryBlocks, bind_eq_ok, pure_eq_ok] at h
    obtain ⟨region, hregion, leaf, -, heq⟩ := h
    cases heq
    have hzero : o.indexBlock 0 = 2 ^ 23 := by
      rw [o.indexBlock_eq, Nat.zero_mul, Nat.add_zero]
    rw [DirLayout.stop, hzero]
    exact ((dataRegion_spec ho hregion).stands ho).append
      (.singleton (ho.blocksPerDirBlock_dvd (by decide)) leaf) (Nat.zero_le _)
      (Nat.le_add_right _ _)
  | node perBlock leafCapacity fanout =>
    simp only [directoryBlocks, bind_eq_ok, pure_eq_ok] at h
    obtain ⟨region, hregion, index, hindex, free, -, heq⟩ := h
    cases heq
    have hholds := dataRegion_spec ho hregion
    have hlength : region.hashes.length = entries.length := by
      obtain ⟨stored, hperm, hpoints⟩ := hholds.points
      rw [hpoints.length_eq, hperm.length_eq]
    rw [DirLayout.Fits, ← hlength] at hfits
    rw [DirLayout.stop, o.freeBlock_eq]
    exact ((hholds.stands ho).append (stands_indexBlocks ho hindex hfits.room) (Nat.zero_le _)
      (by decide)).append (.singleton (ho.blocksPerDirBlock_dvd (by decide)) free) (Nat.zero_le _)
      (Nat.le_add_right _ _)

end

end XfsVolume
