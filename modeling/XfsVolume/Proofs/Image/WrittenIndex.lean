import XfsVolume.Proofs.Image.DirectoryPlaces
import XfsVolume.Proofs.Image.IndexTree

/-!
# An index that was written

The hash entries of a directory are made while its data blocks are filled, sorted, and cut into the
leaves of an index. Decoding the blocks that come of it gives every entry of the directory once, by
its hash and its address, below a tree that leads to each of them (`hashIndex_faithful`). Addresses
grow as the blocks are filled (`AddressesWithin`), so that no two entries share one.
-/

namespace XfsVolume

/-! ## Addresses -/

/-- Addresses of hash entries increase; they lie from byte `first` of a directory on, and before
byte `stop`. -/
structure AddressesWithin (first stop : Nat) (hashes : List HashEntry) : Prop where
  increasing : hashes.Pairwise fun a b => a.address < b.address
  bounds : ∀ h ∈ hashes, first ≤ h.address.toNat * 8 ∧ h.address.toNat * 8 < stop

theorem AddressesWithin.nil (first stop : Nat) : AddressesWithin first stop [] :=
  ⟨.nil, by simp⟩

theorem AddressesWithin.mono {first first' stop : Nat} {hashes : List HashEntry}
    (h : AddressesWithin first stop hashes) (hfirst : first' ≤ first) :
    AddressesWithin first' stop hashes :=
  ⟨h.increasing, fun e he => ⟨Nat.le_trans hfirst (h.bounds e he).1, (h.bounds e he).2⟩⟩

theorem AddressesWithin.append {first middle stop : Nat} {hashes others : List HashEntry}
    (h : AddressesWithin first middle hashes) (h' : AddressesWithin middle stop others)
    (hfirst : first ≤ middle) (hstop : middle ≤ stop) :
    AddressesWithin first stop (hashes ++ others) := by
  refine ⟨List.pairwise_append.mpr ⟨h.increasing, h'.increasing, fun a ha b hb => ?_⟩,
    fun e he => ?_⟩
  · have hlow := (h.bounds a ha).2
    have hhigh := (h'.bounds b hb).1
    rw [UInt32.lt_iff_toNat_lt]
    omega
  · rcases List.mem_append.mp he with he | he
    · have hbounds := h.bounds e he
      exact ⟨hbounds.1, by omega⟩
    · have hbounds := h'.bounds e he
      exact ⟨by omega, hbounds.2⟩

section

variable {o : ImageOptions} {owner db stop : Nat}

theorem within_fillEntries (ho : o.Accepted) : ∀ {es : List EntryDraft} {off last : Nat}
    {block b : ByteArray} {hashes : List HashEntry},
    fillEntries o db stop off block es = .ok (b, last, hashes) → off % 8 = 0 →
      AddressesWithin (o.namedBlock db * o.dirBlockSize + off)
        (o.namedBlock db * o.dirBlockSize + stop) hashes
  | [], _, _, _, _, _, h, _ => by
      cases h
      exact .nil _ _
  | e :: rest, off, last, block, b, hashes, h, h8 => by
      have hlength := entryLength_bounds e.name.length o.ftype
      simp only [fillEntries, bind_eq_ok, ite_error_eq_ok, throw_bind, pure_eq_ok] at h
      obtain ⟨hroom, -, -, address, haddress, ⟨b', last', hashes'⟩, hfill, heq⟩ := h
      dsimp only at heq
      cases heq
      obtain ⟨hlt, hplace⟩ := o.entryAddress_eq_ok ho.dirBlockLog_le h8 haddress
      have hrest := within_fillEntries ho hfill (by omega)
      have hfirst : AddressesWithin (o.namedBlock db * o.dirBlockSize + off)
          (o.namedBlock db * o.dirBlockSize + (off + entryLength e.name.length o.ftype))
          [{ hash := nameHash e.name, address := UInt32.ofNat address }] := by
        refine ⟨List.pairwise_singleton _ _, fun h hin => ?_⟩
        rw [List.mem_singleton.mp hin, UInt32.toNat_ofNat_of_lt' hlt]
        omega
      exact hfirst.append hrest (by omega) (by omega)

theorem within_fillRegion (ho : o.Accepted) {block b : ByteArray} {es : List EntryDraft}
    {hashes : List HashEntry} {free : Nat}
    (h : fillRegion o db stop block es = .ok (b, hashes, free)) :
    AddressesWithin (o.namedBlock db * o.dirBlockSize)
      (o.namedBlock db * o.dirBlockSize + stop) hashes := by
  have hheader : dataHeaderLength o.isV5 % 8 = 0 := by
    cases o.isV5 <;> rfl
  simp only [fillRegion, bind_eq_ok, pure_eq_ok] at h
  obtain ⟨⟨filled, last, hashes'⟩, hfill, room, -, h⟩ := h
  have hwithin := (within_fillEntries ho hfill hheader).mono (Nat.le_add_right _ _)
  split at h
  · cases h
    exact hwithin
  · cases h
    exact hwithin

theorem within_fillBlocks (ho : o.Accepted) : ∀ {chunks : List (List EntryDraft)} {db : Nat}
    {region : DataRegion}, fillBlocks o owner db chunks = .ok region → db + chunks.length ≤ 2 ^ 23 →
      AddressesWithin (db * o.dirBlockSize) ((db + chunks.length) * o.dirBlockSize) region.hashes
  | [], _, _, h, _ => by
      cases h
      exact .nil _ _
  | chunk :: chunks, db, region, h, hfew => by
      simp only [fillBlocks, bind_eq_ok, pure_eq_ok] at h
      obtain ⟨⟨block, hashes, free⟩, hfill, rest, hrest, heq⟩ := h
      cases heq
      rw [List.length_cons] at hfew
      have hothers := within_fillBlocks ho hrest (by omega)
      have hregion := within_fillRegion ho hfill
      rw [ho.namedBlock_eq (by omega)] at hregion
      have hend : (db + 1) * o.dirBlockSize ≤ (db + 1 + chunks.length) * o.dirBlockSize :=
        Nat.mul_le_mul_right _ (Nat.le_add_right _ _)
      rw [List.length_cons, Nat.add_comm chunks.length, ← Nat.add_assoc]
      rw [Nat.succ_mul] at hothers hend
      exact hregion.append hothers (Nat.le_add_right _ _) hend

theorem nodup_addresses (ho : o.Accepted) {es : List EntryDraft} {perBlock : Nat}
    {region : DataRegion} (h : dataRegion o owner es perBlock = .ok region) :
    (region.hashes.map (·.address)).Nodup := by
  have hfew := (dataRegion_spec ho h).length_le
  simp only [dataRegion, throw_bind, ite_error_eq_ok, bind_eq_ok, pure_eq_ok] at h
  obtain ⟨-, filled, hfill, heq⟩ := h
  cases heq
  have hdistinct : (filled.hashes.map (·.address)).Nodup := by
    rw [List.Nodup, List.pairwise_map]
    refine (within_fillBlocks ho hfill ?_).increasing.imp UInt32.ne_of_lt
    rwa [Nat.zero_add, ← length_fillBlocks hfill]
  exact ((List.mergeSort_perm _ _).map _).nodup_iff.mpr hdistinct

end

/-! ## The index -/

/-- What decoding gives for an index that was written over the data blocks `data` of a directory
with the entries `es`: its leaves, and a tree of the given height over them. -/
structure WroteIndex (o : ImageOptions) (es : List EntryDraft) (data index : PlacedBlocks)
    (height : Nat) (leaves : List ChainLeaf) : Prop where
  decoded : ∀ leaf ∈ leaves, index.LeafAt o.isV5 leaf
  /-- Links in both directions join the leaves in their order, with zero at both ends. -/
  chained : ChainedFrom 0 leaves
  sorted : Medium.HashSorted (ChainLeaf.hashes leaves)
  /-- Each entry has one hash entry, with the hash of its name and the address where it is stored. -/
  points : ∃ stored : List EntryDraft, stored.Perm es ∧
    List.Forall₂ (PointsInto o data) (ChainLeaf.hashes leaves) stored
  distinct : ((ChainLeaf.hashes leaves).map (·.address)).Nodup
  /-- No two blocks stand at the same file block. -/
  apart : ((data ++ index).map Prod.fst).Nodup
  height_pos : 0 < height
  /-- The tree is rooted at the start of the index region, and its blocks are those of the index.
  A root too high is not decoded, nor is one over no entries; a directory has two at least, itself
  and its parent. -/
  tree : (∃ blocks, index.Below o.isV5 height (indexRegionByte / imageBlockSize) ⟨leaves, blocks⟩ ∧
    blocks.Perm (index.map Prod.fst)) ↔ es ≠ [] ∧ height ≤ maxNodeDepth

section

variable {o : ImageOptions} {owner perBlock capacity fanout : Nat} {es : List EntryDraft}
  {region : DataRegion} {index : PlacedBlocks}

theorem indexBlocks_room (ho : o.Accepted) {hashes : List HashEntry}
    (h : indexBlocks o owner hashes capacity fanout = .ok index)
    (hbelow : ∀ x ∈ index, x.1 < o.freeBlock) :
    o.indexBlock (indexLevelSizes capacity fanout hashes.length).sum ≤ o.freeBlock := by
  have hsum := indexLevelSizes_sum_pos capacity fanout hashes.length
  obtain ⟨last, hlast⟩ := Nat.exists_eq_succ_of_ne_zero (Nat.pos_iff_ne_zero.mp hsum)
  have hin := (mem_indexBlocks_iff ho h).mpr ⟨last, by omega, rfl⟩
  obtain ⟨x, hx, heq⟩ := List.mem_map.mp hin
  have hlow := hbelow x hx
  obtain ⟨count, hcount⟩ := ho.blocksPerDirBlock_dvd (k := 23) (by decide)
  rw [heq, o.indexBlock_eq, o.freeBlock_eq] at hlow
  rw [hlast, o.indexBlock_eq, o.freeBlock_eq]
  have hlt : last * o.blocksPerDirBlock < o.blocksPerDirBlock * count := by omega
  rw [Nat.mul_comm] at hlt
  have hle := Nat.mul_le_mul_left o.blocksPerDirBlock (Nat.lt_of_mul_lt_mul_left hlt)
  rw [Nat.mul_comm last.succ]
  omega

/-- An index is faithful to the entries that it was made for. Whatever the capacity of its leaves
and the width of its nodes, it is read back as a chain of leaves with the hash and the address of
each entry once, in the order of the hashes, and as a tree over them. -/
theorem hashIndex_faithful (ho : o.Accepted)
    (hdata : dataRegion o owner es perBlock = .ok region)
    (hindex : indexBlocks o owner region.hashes capacity fanout = .ok index)
    (hbelow : ∀ x ∈ index, x.1 < o.freeBlock) :
    ∃ leaves, WroteIndex o es region.blocks index (indexHeight capacity fanout es.length)
      leaves := by
  have hregion := dataRegion_spec ho hdata
  have hroom := indexBlocks_room ho hindex hbelow
  obtain ⟨⟨hcapacity, -⟩, -⟩ := indexBlocks_eq_ok.mp hindex
  obtain ⟨stored, hperm, hpoints⟩ := hregion.points
  have hlength : region.hashes.length = es.length := by
    rw [hpoints.length_eq, hperm.length_eq]
  have hsame := hashes_chainLeaves (o := o) hcapacity region.hashes
  have hpos := indexHeight_pos capacity fanout es.length
  -- the data blocks lie before the index and the index before the free lengths, so that no two of
  -- the blocks overlap
  have hstands := (hregion.stands ho).append (stands_indexBlocks ho hindex hroom) (Nat.zero_le _)
    (by decide)
  refine ⟨o.chainLeaves capacity region.hashes,
    fun leaf hleaf => (leafAt_chainLeaves ho hindex hroom leaf hleaf).2,
    chainedFrom_chainLeaves o capacity _, ?_, ⟨stored, hperm, ?_⟩, ?_,
    hstands.distinct, hpos, ?_, ?_⟩
  · rw [hsame]
    exact hregion.sorted
  · rwa [hsame]
  · rw [hsame]
    exact nodup_addresses ho hdata
  · rintro ⟨blocks, hroot, -⟩
    refine ⟨fun hnil => hroot.leaves_ne_nil ?_, hroot.level_le⟩
    rw [hnil, List.length_nil] at hlength
    have hcount := length_chainLeaves (o := o) hcapacity region.hashes
    rw [hlength, blocksFor_zero hcapacity] at hcount
    exact List.length_eq_zero_iff.mp hcount
  · rintro ⟨hne, hheight⟩
    have hhashes : region.hashes ≠ [] := by
      rw [← List.length_pos_iff, hlength]
      exact List.length_pos_iff.mpr hne
    rw [← hlength] at hheight ⊢
    obtain ⟨blocks, hroot, hblocks⟩ :=
      below_indexBlocks ho hindex hhashes hroom hheight hregion.sorted
    rw [o.indexBlock_eq, Nat.zero_mul] at hroot
    exact ⟨blocks, hroot, hblocks⟩

/-- Five names, one to a leaf and two to a node, are read back below a root at level three. -/
theorem hashIndex_faithful_five : ∃ region index leaves,
    dataRegion { agBlocks := 16, agCount := 1 } 8
      ([97, 98, 99, 100, 101].map fun c => ⟨[c], 9, 1⟩) 2 = .ok region ∧
    indexBlocks { agBlocks := 16, agCount := 1 } 8 region.hashes 1 2 = .ok index ∧
    WroteIndex { agBlocks := 16, agCount := 1 } ([97, 98, 99, 100, 101].map fun c => ⟨[c], 9, 1⟩)
      region.blocks index 3 leaves ∧
    ∃ blocks, index.Below true 3 (2 ^ 23) ⟨leaves, blocks⟩ := by
  obtain ⟨es, hes⟩ : ∃ es : List EntryDraft,
      es = [97, 98, 99, 100, 101].map fun c => ⟨[c], 9, 1⟩ := ⟨_, rfl⟩
  obtain ⟨o, ho⟩ : ∃ o : ImageOptions, o = { agBlocks := 16, agCount := 1 } := ⟨_, rfl⟩
  rw [← hes, ← ho]
  have hnames : es.length = 5 := by
    rw [hes]
    rfl
  obtain ⟨haccepted, -⟩ : o.Accepted ∧ _ ∧ Builder.empty o = Builder.empty o := by
    subst ho
    exact Builder.ofOptions_eq_ok.mp rfl
  obtain ⟨region, hdata⟩ : ∃ region, dataRegion o 8 es 2 = .ok region := by
    have hchunks : chunksOf 2 es = [es.take 2, (es.drop 2).take 2, es.drop 4] := by
      subst hes
      simp [chunksOf]
    rw [dataRegion, hchunks]
    subst ho hes
    exact ⟨_, rfl⟩
  obtain ⟨stored, hperm, hpoints⟩ := (dataRegion_spec haccepted hdata).points
  have hcount : region.hashes.length = 5 := by
    rw [hpoints.length_eq, hperm.length_eq, hnames]
  obtain ⟨index, hindex⟩ : ∃ index, indexBlocks o 8 region.hashes 1 2 = .ok index := by
    subst ho
    exact ⟨_, indexBlocks_eq_ok.mpr ⟨by decide, by decide, by decide, rfl⟩⟩
  have hbelow : ∀ x ∈ index, x.1 < o.freeBlock := by
    intro x hx
    obtain ⟨i, hi, heq⟩ := (mem_indexBlocks_iff haccepted hindex).mp (List.mem_map_of_mem hx)
    have hsum : (indexLevelSizes 1 2 5).sum = 11 := by decide
    rw [hcount, hsum] at hi
    rw [← heq, o.indexBlock_eq, o.freeBlock_eq, ho]
    show 2 ^ 23 + i * 1 < 2 ^ 24
    omega
  obtain ⟨leaves, hwrote⟩ := hashIndex_faithful haccepted hdata hindex hbelow
  have hheight : indexHeight 1 2 es.length = 3 := by
    rw [hnames]
    decide
  rw [hheight] at hwrote
  have hne : es ≠ [] := List.length_pos_iff.mp (by omega)
  obtain ⟨blocks, hroot, -⟩ := hwrote.tree.mpr ⟨hne, by decide⟩
  refine ⟨region, index, leaves, hdata, hindex, hwrote, blocks, ?_⟩
  rw [ho] at hroot
  exact hroot

end

end XfsVolume
