import Mathlib.Data.List.Nodup
import XfsVolume.Proofs.Image.IndexBlocks

/-!
# The blocks of an index

Leaves stand one behind the other after the block left for the root, and the nodes of each level
behind those of the level below. How many blocks that takes, and how high the root stands, depends
on the number of names alone (`indexLevelSizes`).
-/

namespace XfsVolume

/-! ## The shape of an index -/

theorem ImageOptions.indexBlock_eq (o : ImageOptions) (i : Nat) :
    o.indexBlock i = 2 ^ 23 + i * o.blocksPerDirBlock := rfl

theorem ImageOptions.freeBlock_eq (o : ImageOptions) : o.freeBlock = 2 ^ 24 := rfl

/-- Numbers of nodes on the levels above `n` children, from the lowest up to the root. -/
def nodeLevelSizes (fanout : Nat) : (fuel n : Nat) → List Nat
  | 0, _ => [1]
  | fuel + 1, n =>
    if n ≤ fanout then [1]
    else blocksFor n fanout :: nodeLevelSizes fanout fuel (blocksFor n fanout)

/-- Numbers of blocks on the levels of an index of `names` names, from the leaves up. -/
def indexLevelSizes (capacity fanout names : Nat) : List Nat :=
  blocksFor names capacity ::
    nodeLevelSizes fanout (blocksFor names capacity) (blocksFor names capacity)

def indexHeight (capacity fanout names : Nat) : Nat :=
  (nodeLevelSizes fanout (blocksFor names capacity) (blocksFor names capacity)).length

/-- An index of `names` names is no higher than a reader descends, and ends before the region of
free lengths. -/
structure IndexFits (o : ImageOptions) (capacity fanout names : Nat) : Prop where
  height : (indexLevelSizes capacity fanout names).length ≤ maxNodeDepth + 1
  room : o.indexBlock (indexLevelSizes capacity fanout names).sum ≤ o.freeBlock

instance (o : ImageOptions) (capacity fanout names : Nat) :
    Decidable (IndexFits o capacity fanout names) :=
  decidable_of_iff (_ ∧ _) ⟨fun h => ⟨h.1, h.2⟩, fun h => ⟨h.height, h.room⟩⟩

theorem indexHeight_pos (capacity fanout names : Nat) : 0 < indexHeight capacity fanout names := by
  rw [indexHeight]
  cases blocksFor names capacity with
  | zero => exact Nat.one_pos
  | succ n =>
    rw [nodeLevelSizes]
    split
    · exact Nat.one_pos
    · exact Nat.succ_pos _

theorem nodeLevelSizes_sum_pos (fanout : Nat) : ∀ fuel n : Nat,
    0 < (nodeLevelSizes fanout fuel n).sum
  | 0, _ => Nat.one_pos
  | fuel + 1, n => by
      rw [nodeLevelSizes]
      split
      · exact Nat.one_pos
      · have ih := nodeLevelSizes_sum_pos fanout fuel (blocksFor n fanout)
        rw [List.sum_cons]
        omega

theorem indexLevelSizes_sum_pos (capacity fanout names : Nat) :
    0 < (indexLevelSizes capacity fanout names).sum := by
  have hnodes := nodeLevelSizes_sum_pos fanout (blocksFor names capacity) (blocksFor names capacity)
  rw [indexLevelSizes, List.sum_cons]
  omega

section

variable {o : ImageOptions} {owner fanout : Nat}

theorem middle_indexPlaces (o : ImageOptions) (index count : Nat) :
    (indexPlaces o index count).map (·.2.1) = (List.range' index count).map o.indexBlock := by
  rw [indexPlaces, middle_neighbours, List.range'_eq_map_range, List.map_map]
  rfl

theorem length_indexPlaces (o : ImageOptions) (index count : Nat) :
    (indexPlaces o index count).length = count := by
  rw [indexPlaces, length_neighbours, List.length_map, List.length_range]

theorem mem_indexPlaces {index count : Nat} {place : Nat × Nat × Nat}
    (h : place ∈ indexPlaces o index count) :
    ∃ i, index ≤ i ∧ i < index + count ∧ place.2.1 = o.indexBlock i := by
  have hin : place.2.1 ∈ (indexPlaces o index count).map (·.2.1) := List.mem_map_of_mem h
  rw [middle_indexPlaces] at hin
  obtain ⟨i, hi, heq⟩ := List.mem_map.mp hin
  rw [List.mem_range'_1] at hi
  exact ⟨i, hi.1, hi.2, heq.symm⟩

theorem blocks_indexPlaces {α : Type} (o : ImageOptions) (index : Nat) (chunks : List α) :
    ((indexPlaces o index chunks.length).zip chunks).map (·.1.2.1) =
      (List.range' index chunks.length).map o.indexBlock := by
  have hlength : ((List.range chunks.length).map fun i => o.indexBlock (index + i)).length ≤
      chunks.length := Nat.le_of_eq (by rw [List.length_map, List.length_range])
  rw [indexPlaces, middle_zip_neighbours _ _ hlength, List.range'_eq_map_range, List.map_map]
  rfl

theorem length_parents {α : Type} (o : ImageOptions) (index : Nat) {n : Nat} (hn : 0 < n)
    (xs : List α) :
    ((indexPlaces o index (chunksOf n xs).length).zip (chunksOf n xs)).length =
      blocksFor xs.length n := by
  rw [List.length_zip, length_indexPlaces, Nat.min_self, length_chunksOf hn]

theorem places_indexLevels (hfanout : 0 < fanout) : ∀ (fuel level index : Nat)
    (children : List IndexChild), (indexLevels o owner fanout fuel level index children).map
      Prod.fst = (List.range' index
        ((nodeLevelSizes fanout fuel children.length).sum - 1)).map o.indexBlock ++
          [o.indexBlock 0]
  | 0, _, _, _ => rfl
  | fuel + 1, level, index, children => by
      rw [indexLevels, nodeLevelSizes]
      split
      · rfl
      · have hchunks := length_chunksOf hfanout children
        have hlength := length_parents o index hfanout children
        have hsum := nodeLevelSizes_sum_pos fanout fuel (blocksFor children.length fanout)
        have hlevel := blocks_indexPlaces o index (chunksOf fanout children)
        rw [List.map_append, List.map_map, places_indexLevels hfanout fuel, List.length_map,
          hlength, ← List.append_assoc, hchunks]
        congr 1
        rw [hchunks] at hlevel
        refine (congrArg (· ++ _) hlevel).trans ?_
        rw [← List.map_append, List.sum_cons, List.range'_append_1]
        congr 2
        omega

theorem size_indexNodeBlock {children : List IndexChild}
    (hroom : indexHeaderLength o.isV5 + 8 * children.length ≤ o.dirBlockSize)
    (level next prev : Nat) :
    (indexNodeBlock o owner level next prev children).size = o.dirBlockSize := by
  have hbounds := indexHeader_bounds o.isV5
  have hcounts : Field.Laid (indexCountOffset o.isV5) (indexHeaderLength o.isV5)
      [⟨indexCountOffset o.isV5, 2, children.length⟩, ⟨indexCountOffset o.isV5 + 2, 2, level⟩] := by
    simp only [Field.Laid, Field.stop]
    omega
  have hrecords : Field.Laid (indexHeaderLength o.isV5) o.dirBlockSize
      (fieldRun (indexHeaderLength o.isV5) 4 (childNumbers children)) := by
    have hrun := Field.laid_fieldRun 4 (childNumbers children) (indexHeaderLength o.isV5)
    rw [length_childNumbers] at hrun
    exact hrun.mono (by omega)
  exact (laid_indexBlock hcounts hrecords).size_blockOf

theorem size_of_mem_indexLevels (hfanout : 2 ≤ fanout)
    (hroom : indexHeaderLength o.isV5 + 8 * fanout ≤ o.dirBlockSize) :
    ∀ {fuel level index : Nat} {children : List IndexChild}, children.length ≤ fuel →
      ∀ x ∈ indexLevels o owner fanout fuel level index children, x.2.size = o.dirBlockSize := by
  intro fuel
  induction fuel with
  | zero =>
    intro level index children hfuel x hx
    have hchildren : indexHeaderLength o.isV5 + 8 * children.length ≤ o.dirBlockSize := by omega
    rw [indexLevels, List.mem_singleton] at hx
    rw [hx]
    dsimp only
    exact size_indexNodeBlock hchildren level 0 0
  | succ fuel ih =>
    intro level index children hfuel x hx
    rw [indexLevels] at hx
    split at hx
    · have hchildren : indexHeaderLength o.isV5 + 8 * children.length ≤ o.dirBlockSize := by omega
      rw [List.mem_singleton] at hx
      rw [hx]
      dsimp only
      exact size_indexNodeBlock hchildren level 0 0
    · rcases List.mem_append.mp hx with hx | hx
      · obtain ⟨⟨⟨prev, fb, next⟩, chunk⟩, hin, rfl⟩ := List.mem_map.mp hx
        have hlength := (length_of_mem_chunksOf children chunk (List.of_mem_zip hin).2).2
        have hchunk : indexHeaderLength o.isV5 + 8 * chunk.length ≤ o.dirBlockSize := by omega
        dsimp only
        exact size_indexNodeBlock hchunk level next prev
      · refine ih ?_ x hx
        have hlt := blocksFor_lt hfanout (n := children.length) (by omega)
        rw [List.length_map, length_parents o _ (by omega)]
        omega

end

/-! ## Blocks and their places -/

theorem indexBlock_bounds_of_lt {o : ImageOptions} {total i : Nat}
    (hend : o.indexBlock total ≤ o.freeBlock) (hi : i < total) :
    2 ^ 23 ≤ o.indexBlock i ∧ o.indexBlock i + o.blocksPerDirBlock ≤ 2 ^ 24 := by
  have hmul := unit_stop_le o.blocksPerDirBlock hi
  rw [o.indexBlock_eq, o.freeBlock_eq] at hend
  rw [o.indexBlock_eq]
  omega

section

variable {o : ImageOptions} {owner capacity fanout : Nat} {hashes : List HashEntry}
  {index : PlacedBlocks}

/-- What is checked before an index is made, and what it is made of. -/
theorem indexBlocks_eq_ok : indexBlocks o owner hashes capacity fanout = .ok index ↔
    (0 < capacity ∧ 2 ≤ fanout) ∧ indexHeaderLength o.isV5 + 8 * capacity ≤ o.dirBlockSize ∧
      indexHeaderLength o.isV5 + 8 * fanout ≤ o.dirBlockSize ∧
      index = (((indexPlaces o 1 (chunksOf capacity hashes).length).zip
          (chunksOf capacity hashes)).map fun x =>
            (x.1.2.1, indexLeafBlock o owner .chained x.1.2.2 x.1.1 x.2 [])) ++
        indexLevels o owner fanout ((indexPlaces o 1 (chunksOf capacity hashes).length).zip
          (chunksOf capacity hashes)).length 1 (1 + (chunksOf capacity hashes).length)
          (((indexPlaces o 1 (chunksOf capacity hashes).length).zip
            (chunksOf capacity hashes)).map fun x =>
              { hash := (x.2.getLast?.map (·.hash.toNat)).getD 0, fileBlock := x.1.2.1 }) := by
  simp only [indexBlocks, throw_bind, ite_error_eq_ok, pure_eq_ok, Bool.or_eq_true,
    decide_eq_true_eq, Nat.not_lt, not_or, List.length_map, Nat.one_le_iff_ne_zero,
    Nat.pos_iff_ne_zero]
  constructor
  · rintro ⟨hshape, hleaf, hnode, heq⟩
    cases heq
    exact ⟨hshape, hleaf, hnode, rfl⟩
  · rintro ⟨hshape, hleaf, hnode, rfl⟩
    exact ⟨hshape, hleaf, hnode, rfl⟩

/-- The blocks of an index have their size, and stand one behind the other. -/
theorem indexBlocks_spec (ho : o.Accepted)
    (h : indexBlocks o owner hashes capacity fanout = .ok index) :
    (∀ x ∈ index, x.2.size = o.dirBlockSize) ∧ index.map Prod.fst =
      (List.range' 1 ((indexLevelSizes capacity fanout hashes.length).sum - 1)).map o.indexBlock ++
        [o.indexBlock 0] := by
  obtain ⟨⟨hcapacity, hfanout⟩, hleaf, hnode, rfl⟩ := indexBlocks_eq_ok.mp h
  have hlength := length_parents o 1 hcapacity hashes
  have hcount := length_chunksOf hcapacity hashes
  constructor
  · intro x hx
    rcases List.mem_append.mp hx with hx | hx
    · obtain ⟨⟨place, chunk⟩, hin, rfl⟩ := List.mem_map.mp hx
      have hshort := (length_of_mem_chunksOf hashes chunk (List.of_mem_zip hin).2).2
      have hroom : indexHeaderLength o.isV5 + 8 * chunk.length ≤ o.dirBlockSize := by omega
      dsimp only
      exact (decode_chainedLeaf ho hroom owner _ _).1
    · exact size_of_mem_indexLevels hfanout hnode (Nat.le_of_eq (List.length_map _)) x hx
  · have hsum := nodeLevelSizes_sum_pos fanout (blocksFor hashes.length capacity)
      (blocksFor hashes.length capacity)
    rw [List.map_append, List.map_map, places_indexLevels (by omega), List.length_map, hlength,
      ← List.append_assoc, indexLevelSizes, List.sum_cons]
    have hleaves := blocks_indexPlaces o 1 (chunksOf capacity hashes)
    refine congrArg (· ++ _) ((congrArg (· ++ _) hleaves).trans ?_)
    rw [← List.map_append, List.range'_append_1, hcount]
    congr 2
    omega

/-- Each block of an index stands at a number below that of all blocks, and each number has one. -/
theorem mem_indexBlocks_iff (ho : o.Accepted)
    (h : indexBlocks o owner hashes capacity fanout = .ok index) {fb : Nat} :
    fb ∈ index.map Prod.fst ↔
      ∃ i < (indexLevelSizes capacity fanout hashes.length).sum, o.indexBlock i = fb := by
  have hsum := indexLevelSizes_sum_pos capacity fanout hashes.length
  rw [(indexBlocks_spec ho h).2, List.mem_append, List.mem_singleton, List.mem_map]
  simp only [List.mem_range'_1]
  constructor
  · rintro (⟨i, hi, rfl⟩ | rfl)
    · exact ⟨i, by omega, rfl⟩
    · exact ⟨0, hsum, rfl⟩
  · rintro ⟨i, hi, rfl⟩
    by_cases hzero : i = 0
    · exact Or.inr (congrArg o.indexBlock hzero)
    · exact Or.inl ⟨i, by omega, rfl⟩

theorem nodup_indexBlocks (ho : o.Accepted)
    (h : indexBlocks o owner hashes capacity fanout = .ok index) :
    (index.map Prod.fst).Nodup := by
  have hinj : Function.Injective o.indexBlock := fun i j hij =>
    Nat.eq_of_mul_eq_mul_right o.blocksPerDirBlock_pos (Nat.add_left_cancel hij)
  have hroot : [o.indexBlock 0] = [0].map o.indexBlock := rfl
  rw [(indexBlocks_spec ho h).2, hroot, ← List.map_append]
  refine List.Nodup.map hinj (List.nodup_append.mpr ⟨List.nodup_range', by simp, ?_⟩)
  intro i hi j hj
  rw [List.mem_range'_1] at hi
  rw [List.mem_singleton] at hj
  omega

end

end XfsVolume
