import XfsVolume.Proofs.Directory.Presented
import XfsVolume.Proofs.Image.DirectoryOnMedium
import XfsVolume.Proofs.Image.DirectoryPlaces
import XfsVolume.Proofs.Image.EntriesOnMedium
import XfsVolume.Proofs.Image.IndexTree

/-!
# Directories that stand on a medium

A reader that finds the blocks of a directory where they were placed finds the directory in the
format of its layout, and its listing is the entries that it was made from, in some order. A block
directory lists them in the order in which they were given, the others in the order of the hashes of
their names.
-/

namespace XfsVolume

namespace Medium

variable {m : Medium} {dir : Inode} {o : ImageOptions} {extents : List Extent} {stop : Nat}

/-! ## The format -/

theorem dirFormat_mapped (hs : m.device.Sized) (hdir : dir.isDirectory = true)
    (hf : m.ForkHolds dir extents) : m.dirFormat dir =
      if dir.extents.toNat ≤ 1 then .ok .block
      else match extents.getLast? with
        | none => .error (dirFault 0 (.noExtents dir.ino.toNat))
        | some last =>
          if last.stop ≤ m.geometry.blocksPerDirBlock then .ok .block
          else if last.stop = m.geometry.indexRegion + m.geometry.blocksPerDirBlock then .ok .leaf
          else .ok .node := by
  rw [dirFormat, hdir, hf.lastExtent?_eq hs]
  rcases hf.isMapped with hformat | hformat <;> rw [hformat]
  · cases extents.getLast? <;> rfl
  · cases extents.getLast? <;> rfl

theorem dirFormat_near (hs : m.device.Sized) (hm : o.Measures m.geometry)
    (hdir : dir.isDirectory = true) (hf : m.ForkHolds dir extents)
    (hcount : dir.extents.toNat = extents.length)
    (hp : o.Placing extents.reverse o.blocksPerDirBlock) : m.dirFormat dir = .ok .block := by
  rw [dirFormat_mapped hs hdir hf, hm.blocksPerDirBlock]
  split
  · rfl
  · rename_i hmany
    have hne : extents ≠ [] := List.length_pos_iff.mp (by omega)
    have hlast := List.getLast?_eq_some_getLast hne
    have hin := List.getLast_mem hne
    have hbefore := hp.before _ (List.mem_reverse.mpr hin)
    rw [hlast]
    dsimp only
    rw [if_pos]
    rwa [(hf.inOrder.fits _ hin).stop_eq]

theorem getLast?_of_maps (horder : InOrder extents) (hp : o.Placing extents.reverse stop)
    {data : ByteArray} (h : m.Maps o extents (stop - 1) data) :
    ∃ last, extents.getLast? = some last ∧ last.stop = stop := by
  obtain ⟨e, he, hh, -⟩ := h
  have hlow := hh.1
  have hhigh := hh.2
  have hbefore := hp.before e (List.mem_reverse.mpr he)
  have hpos := horder.nonempty e he
  have hstop : e.stop = stop := by
    rw [(horder.fits e he).stop_eq]
    omega
  obtain ⟨pre, post, rfl⟩ := List.append_of_mem he
  cases post with
  | nil => exact ⟨e, List.getLast?_concat, hstop⟩
  | cons next post =>
    have hin : next ∈ pre ++ e :: next :: post := by simp
    have hafter := hp.before next (List.mem_reverse.mpr hin)
    have hnext := horder.nonempty next hin
    have hdisjoint := (List.pairwise_append.mp horder.disjoint).2.1
    have hbehind := (List.pairwise_cons.mp hdisjoint).1 next List.mem_cons_self
    omega

theorem one_lt_length_of_maps (ho : o.Bounded) (hp : o.Placing extents.reverse stop)
    (hfar : 2 ^ 20 < stop) {first data : ByteArray} (hfirst : m.Maps o extents 0 first)
    (h : m.Maps o extents (stop - 1) data) : 1 < extents.length := by
  obtain ⟨a, ha, hza, -⟩ := hfirst
  obtain ⟨e, he, hh, -⟩ := h
  by_contra hfew
  obtain ⟨x, rfl⟩ : ∃ x, extents = [x] := by
    refine List.length_eq_one_iff.mp ?_
    have hpos := List.length_pos_of_mem he
    omega
  rw [List.mem_singleton] at ha he
  rw [ha] at hza
  rw [he] at hh
  obtain ⟨-, ag, agBlock, hrun⟩ := hp.run x (by simp)
  have hroom := hrun.room
  have hblocks := ho.agBlocksLe
  have hlow := hza.1
  have hhigh := hh.2
  omega

theorem dirFormat_far (hs : m.device.Sized) (ho : o.Bounded) (hm : o.Measures m.geometry)
    (hdir : dir.isDirectory = true) (hf : m.ForkHolds dir extents)
    (hcount : dir.extents.toNat = extents.length) (hp : o.Placing extents.reverse stop)
    (hfar : 2 ^ 23 < stop) {first data : ByteArray} (hfirst : m.Maps o extents 0 first)
    (h : m.Maps o extents (stop - 1) data) : m.dirFormat dir =
      if stop = 2 ^ 23 + o.blocksPerDirBlock then .ok .leaf else .ok .node := by
  have hmany := one_lt_length_of_maps ho hp (by omega) hfirst h
  have hrun := ho.toAccepted.blocksPerDirBlock_le
  obtain ⟨last, hlast, hstop⟩ := getLast?_of_maps hf.inOrder hp h
  rw [dirFormat_mapped hs hdir hf, hlast, hm.blocksPerDirBlock, hm.indexRegion, if_neg (by omega)]
  dsimp only
  rw [hstop, if_neg (by omega)]

/-! ## The listing -/

theorem lt_listingSteps (hm : o.Measures m.geometry) {n : Nat} (h : n ≤ 2 ^ 36) :
    n < m.listingSteps := by
  unfold listingSteps
  rw [hm.freeRegion, hm.indexRegion, Nat.shiftLeft_eq]
  omega

variable {owner dataBlocks : Nat} {entries : List EntryDraft} {layout : DirLayout}
  {blocks : PlacedBlocks}

theorem presents_singleBlock (ho : o.Accepted) (hm : o.Measures m.geometry) {block : ByteArray}
    (h : singleBlock o owner entries = .ok block) (hes : ∀ e ∈ entries, e.Storable)
    (hformat : m.dirFormat dir = .ok .block) (hread : m.dirBlock dir 0 = .ok block) :
    m.Presents dir .block (entries.map (·.listed o.ftype)) := by
  obtain ⟨-, hheader, tail, htail, hwalk, hend⟩ := singleBlock_spec ho h hes
  have hfound := blockWalk_eq hread hheader htail
  rw [hm.hasFtype] at hfound
  have hlists := lists_block hfound hend
  have hlisted : entries.map (fun e => (e.stored o.ftype).toDirEntry) =
      entries.map (·.listed o.ftype) :=
    List.map_congr_left fun e he => (hes e he).toDirEntry_stored o.ftype
  rw [hwalk, List.map_map] at hlists
  refine ⟨hformat, trivial, hlisted ▸ hlists, lt_listingSteps hm ?_⟩
  have hbounds := ho.dirBlockSize_bounds
  simp only [singleBlock, throw_bind, ite_error_eq_ok] at h
  rw [List.length_map]
  omega

theorem presents_singleLeaf (ho : o.Accepted) (hm : o.Measures m.geometry) {region : DataRegion}
    {block : ByteArray} (hregion : region.Holds o entries)
    (h : singleLeaf o owner region = .ok block) (hes : ∀ e ∈ entries, e.Storable)
    (hformat : m.dirFormat dir = .ok .leaf)
    (hdata : ∀ x ∈ region.blocks, m.dirBlock dir x.1 = .ok x.2)
    (hread : m.dirBlock dir (o.indexBlock 0) = .ok block) :
    ∃ stored : List EntryDraft, stored.Perm entries ∧
      m.Presents dir .leaf (stored.map (·.listed o.ftype)) := by
  obtain ⟨-, header, hheader, hkind, hentries⟩ := singleLeaf_spec ho h
  obtain ⟨stored, hperm, hpoints⟩ := hregion.points
  obtain ⟨hresolves, hhashed⟩ := resolves_of_points ho hm hregion.block hdata hpoints
    fun d hd => hes d (hperm.mem_iff.mp hd)
  have hroot : o.indexBlock 0 = m.geometry.indexRegion := by
    rw [hm.indexRegion, o.indexBlock_eq, Nat.zero_mul, Nat.add_zero]
  rw [hroot] at hread
  have hleaf := fresh_readLeaf_eq_ok.mpr ⟨block, hread, hheader, hkind, hentries⟩
  obtain ⟨hsearch, hlists⟩ := lists_leaf hleaf hregion.sorted hhashed hresolves
  refine ⟨stored, hperm, hformat, hsearch, hlists, lt_listingSteps hm ?_⟩
  have hbounds := ho.dirBlockSize_bounds
  have hlength := hpoints.length_eq
  simp only [singleLeaf, throw_bind, ite_error_eq_ok] at h
  rw [List.length_map]
  omega

theorem le_blocksFor_mul {n per : Nat} (hper : 0 < per) : n ≤ blocksFor n per * per := by
  have hdiv := Nat.div_add_mod (n + per - 1) per
  have hmod := Nat.mod_lt (n + per - 1) hper
  rw [blocksFor, Nat.mul_comm]
  omega

theorem length_le_of_indexFits (ho : o.Accepted) {n capacity fanout : Nat} (hcapacity : 0 < capacity)
    (hroom : indexHeaderLength o.isV5 + 8 * capacity ≤ o.dirBlockSize)
    (hfits : IndexFits o capacity fanout n) : n ≤ 2 ^ 36 := by
  have hbounds := ho.dirBlockSize_bounds
  have hend := hfits.room
  rw [o.indexBlock_eq, o.freeBlock_eq, indexLevelSizes, List.sum_cons] at hend
  have hleaves : blocksFor n capacity ≤ 2 ^ 23 := by
    have hmul := Nat.le_mul_of_pos_right (blocksFor n capacity +
      (nodeLevelSizes fanout (blocksFor n capacity) (blocksFor n capacity)).sum)
      o.blocksPerDirBlock_pos
    omega
  calc n ≤ blocksFor n capacity * capacity := le_blocksFor_mul hcapacity
    _ ≤ 2 ^ 23 * 2 ^ 13 := Nat.mul_le_mul hleaves (by omega)
    _ = 2 ^ 36 := rfl

theorem presents_index (ho : o.Accepted) (hm : o.Measures m.geometry) {region : DataRegion}
    {index : PlacedBlocks} {capacity fanout : Nat} (hregion : region.Holds o entries)
    (hne : entries ≠ []) (h : indexBlocks o owner region.hashes capacity fanout = .ok index)
    (hes : ∀ e ∈ entries, e.Storable) (hfits : IndexFits o capacity fanout entries.length)
    (hformat : m.dirFormat dir = .ok .node)
    (hdata : ∀ x ∈ region.blocks, m.dirBlock dir x.1 = .ok x.2)
    (hread : ∀ x ∈ index, m.dirBlock dir x.1 = .ok x.2)
    (hfew : index.length ≤ m.maxLeafLinks dir) :
    ∃ stored : List EntryDraft, stored.Perm entries ∧
      m.Presents dir .node (stored.map (·.listed o.ftype)) := by
  obtain ⟨stored, hperm, hpoints⟩ := hregion.points
  have hlength : region.hashes.length = entries.length := by
    rw [hpoints.length_eq, hperm.length_eq]
  have hhashes : region.hashes ≠ [] := by
    rw [← List.length_pos_iff, hlength]
    exact List.length_pos_iff.mpr hne
  rw [← hlength] at hfits
  obtain ⟨hresolves, hhashed⟩ := resolves_of_points ho hm hregion.block hdata hpoints
    fun d hd => hes d (hperm.mem_iff.mp hd)
  obtain ⟨leaves, root, htree, hchained, hentries, hcount⟩ :=
    indexBlocks_read ho hm h hfits hhashes hregion.sorted hread
  obtain ⟨⟨hcapacity, -⟩, hroom, -⟩ := indexBlocks_eq_ok.mp h
  have hsizes := congrArg List.length (indexBlocks_spec ho h).2
  have hnodes := nodeLevelSizes_sum_pos fanout (blocksFor region.hashes.length capacity)
    (blocksFor region.hashes.length capacity)
  rw [List.length_map, List.length_append, List.length_map, List.length_range',
    List.length_singleton, indexLevelSizes, List.sum_cons] at hsizes
  have hindex : m.HashIndex dir leaves := by
    refine ⟨⟨root, htree⟩, hchained, ?_, ?_, ?_⟩
    · rw [hentries]
      exact hregion.sorted
    · rwa [hentries]
    · omega
  rw [← hentries] at hresolves
  obtain ⟨hsearch, hlists⟩ := lists_node hindex hresolves
  refine ⟨stored, hperm, hformat, hsearch, hlists, lt_listingSteps hm ?_⟩
  rw [List.length_map, hperm.length_eq, ← hlength]
  exact length_le_of_indexFits ho hcapacity hroom hfits

/-! ## Any layout with blocks -/

theorem mem_zero_of_holds {region : DataRegion} (h : region.Holds o entries) (hne : entries ≠ []) :
    ∃ block, (0, block) ∈ region.blocks := by
  obtain ⟨stored, hperm, hpoints⟩ := h.points
  have hblocks : region.blocks ≠ [] := by
    intro hnil
    generalize region.hashes = hashes at hpoints
    cases hpoints with
    | nil => exact hne hperm.symm.eq_nil
    | cons hpoint _ =>
      obtain ⟨db, block, hin, -⟩ := hpoint
      rw [hnil] at hin
      cases hin
  have hplaces := h.places
  obtain ⟨⟨fb, block⟩, rest, hcons⟩ := List.exists_cons_of_ne_nil hblocks
  rw [hcons, List.map_cons, List.length_cons, List.range_succ_eq_map, List.map_cons,
    Nat.zero_mul] at hplaces
  have hzero : fb = 0 := (List.cons.inj hplaces).1
  rw [hcons, ← hzero]
  exact ⟨block, List.mem_cons_self⟩

theorem presents_of_placed (ho : o.Bounded) (hs : m.device.Sized) (hm : o.Measures m.geometry)
    (hdir : dir.isDirectory = true) (hf : m.ForkHolds dir extents)
    (hcount : dir.extents.toNat = extents.length)
    (hp : o.Placing extents.reverse (layout.stop o))
    (h : directoryBlocks o owner entries layout = .ok (blocks, dataBlocks))
    (hlayout : layout ≠ .inline) (hfits : layout.Fits o entries.length) (hne : entries ≠ [])
    (hes : ∀ e ∈ entries, e.Storable)
    (hmaps : ∀ x ∈ blocks, ∀ j < o.blocksPerDirBlock, m.Maps o extents (x.1 + j)
      (window x.2 (j * imageBlockSize) imageBlockSize))
    (hread : ∀ x ∈ blocks, m.dirBlock dir x.1 = .ok x.2)
    (hfew : blocks.length ≤ m.maxLeafLinks dir) :
    ∃ stored : List EntryDraft, stored.Perm entries ∧
      m.Presents dir layout.format (stored.map (·.listed o.ftype)) := by
  have hpos := o.blocksPerDirBlock_pos
  have hrun := ho.toAccepted.blocksPerDirBlock_le
  have hindex := o.indexBlock_eq 0
  rw [Nat.zero_mul, Nat.add_zero] at hindex
  have hend {fb : Nat} {block : ByteArray} (hin : (fb, block) ∈ blocks)
      (hstop : layout.stop o = fb + o.blocksPerDirBlock) :
      ∃ data, m.Maps o extents (layout.stop o - 1) data := by
    have hlast := hmaps _ hin (o.blocksPerDirBlock - 1) (by omega)
    have hplace : layout.stop o - 1 = fb + (o.blocksPerDirBlock - 1) := by omega
    rw [hplace]
    exact ⟨_, hlast⟩
  cases layout with
  | inline => exact absurd rfl hlayout
  | block =>
    simp only [directoryBlocks, bind_eq_ok, pure_eq_ok] at h
    obtain ⟨block, hblock, heq⟩ := h
    cases heq
    have hformat := dirFormat_near hs hm hdir hf hcount hp
    exact ⟨entries, .refl _, presents_singleBlock ho.toAccepted hm hblock hes hformat
      (hread (0, block) List.mem_cons_self)⟩
  | leaf perBlock =>
    simp only [directoryBlocks, bind_eq_ok, pure_eq_ok] at h
    obtain ⟨region, hregion, leaf, hleaf, heq⟩ := h
    cases heq
    have hholds := dataRegion_spec ho.toAccepted hregion
    obtain ⟨first, hfirst⟩ := mem_zero_of_holds hholds hne
    have hmapsFirst := hmaps _ (List.mem_append_left _ hfirst) 0 hpos
    have hlast : (o.indexBlock 0, leaf) ∈ region.blocks ++ [(o.indexBlock 0, leaf)] :=
      List.mem_append_right _ (List.mem_singleton_self _)
    obtain ⟨data, hdata⟩ := hend hlast rfl
    rw [DirLayout.stop, hindex] at hp hdata
    have hformat := dirFormat_far hs ho hm hdir hf hcount hp (by omega) hmapsFirst hdata
    rw [if_pos rfl] at hformat
    exact presents_singleLeaf ho.toAccepted hm hholds hleaf hes hformat
      (fun x hx => hread x (List.mem_append_left _ hx)) (hread (o.indexBlock 0, leaf) hlast)
  | node perBlock leafCapacity fanout =>
    simp only [directoryBlocks, bind_eq_ok, pure_eq_ok] at h
    obtain ⟨region, hregion, index, hblocks, free, -, heq⟩ := h
    cases heq
    have hholds := dataRegion_spec ho.toAccepted hregion
    obtain ⟨first, hfirst⟩ := mem_zero_of_holds hholds hne
    have hmapsFirst := hmaps _ (List.mem_append_left _ (List.mem_append_left _ hfirst)) 0 hpos
    have hlast : (o.freeBlock, free) ∈ region.blocks ++ index ++ [(o.freeBlock, free)] :=
      List.mem_append_right _ (List.mem_singleton_self _)
    obtain ⟨data, hdata⟩ := hend hlast rfl
    rw [DirLayout.stop, o.freeBlock_eq] at hp hdata
    have hformat := dirFormat_far hs ho hm hdir hf hcount hp (by omega) hmapsFirst hdata
    rw [if_neg (by omega)] at hformat
    rw [List.length_append, List.length_append] at hfew
    exact presents_index ho.toAccepted hm hholds hne hblocks hes hfits hformat
      (fun x hx => hread x (List.mem_append_left _ (List.mem_append_left _ hx)))
      (fun x hx => hread x (List.mem_append_left _ (List.mem_append_right _ hx))) (by omega)

end Medium

end XfsVolume
