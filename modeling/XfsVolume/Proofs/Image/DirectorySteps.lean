import XfsVolume.Proofs.Image.Callers
import XfsVolume.Proofs.Image.IndexLevels

/-!
# Steps that make directories

Whatever the format, the blocks of a directory have the length of a directory block, so that each of
them is written to the room that it was given. A step that writes a directory writes to blocks that
it takes itself and to the inode's slot alone.
-/

namespace XfsVolume

section

variable {o : ImageOptions} {owner n : Nat} {entries : List EntryDraft} {layout : DirLayout}
  {blocks : PlacedBlocks}

/-! ## Lengths of blocks -/

theorem size_freeLengthBlock {free : List Nat} {b : ByteArray}
    (h : freeLengthBlock o owner free = .ok b) : b.size = o.dirBlockSize := by
  rw [freeLengthBlock] at h
  simp only [throw_bind, ite_error_eq_ok, pure_eq_ok] at h
  obtain ⟨hroom, heq⟩ := h
  cases heq
  apply Field.Laid.size_blockOf
  refine Field.Laid.append ?_ ((Field.laid_fieldRun 2 free _).mono (by omega))
  cases o.isV5 <;> simp [Field.Laid, Field.stop, indexHeaderLength]

/-- Every block of a directory has the length of one. -/
theorem size_of_mem_directoryBlocks (ho : o.Accepted)
    (h : directoryBlocks o owner entries layout = .ok (blocks, n)) :
    ∀ x ∈ blocks, x.2.size = o.dirBlockSize := by
  intro x hx
  cases layout with
  | inline | block =>
    simp only [directoryBlocks, bind_eq_ok, pure_eq_ok] at h
    obtain ⟨block, hblock, heq⟩ := h
    cases heq
    rw [List.mem_singleton] at hx
    subst hx
    exact (singleBlock_filled ho hblock).1
  | leaf perBlock =>
    simp only [directoryBlocks, bind_eq_ok, pure_eq_ok] at h
    obtain ⟨region, hregion, leaf, hleaf, heq⟩ := h
    cases heq
    rw [List.mem_append, List.mem_singleton] at hx
    rcases hx with hx | rfl
    · exact ((dataRegion_spec ho hregion).block x hx).1.size
    · exact (singleLeaf_spec ho hleaf).1
  | node perBlock leafCapacity fanout =>
    simp only [directoryBlocks, bind_eq_ok, pure_eq_ok] at h
    obtain ⟨region, hregion, index, hindex, free, hfree, heq⟩ := h
    cases heq
    rw [List.mem_append, List.mem_append, List.mem_singleton] at hx
    rcases hx with (hx | hx) | rfl
    · exact ((dataRegion_spec ho hregion).block x hx).1.size
    · exact (indexBlocks_spec ho hindex).1 x hx
    · exact size_freeLengthBlock hfree

end

namespace BuildM

open Builder

variable {b b' : Builder} {spare : Nat → Prop}

/-! ## Entries -/

/-- Entries are drafted as they were given, and none of their names is empty or too long. -/
theorem draftEntries_spec {entries : List (Name × Nat)} {drafts : List EntryDraft}
    (h : Gives (draftEntries entries) b drafts b') :
    b' = b ∧ drafts.map (fun e => (e.name, e.ino)) = entries ∧
      ∀ e ∈ drafts, e.name ≠ [] ∧ e.name.length ≤ maxNameLength := by
  rw [draftEntries, gives_bind] at h
  obtain ⟨_, _, hget, h⟩ := h
  obtain ⟨rfl, rfl⟩ := gives_get.mp hget
  clear hget
  induction entries generalizing drafts with
  | nil =>
    obtain ⟨rfl, rfl⟩ := gives_pure.mp h
    exact ⟨rfl, rfl, by simp⟩
  | cons entry rest ih =>
    rw [List.mapM_cons, gives_bind] at h
    obtain ⟨draft, mid, hfirst, h⟩ := h
    rw [gives_guard, gives_pure] at hfirst
    obtain ⟨hname, rfl, rfl⟩ := hfirst
    obtain ⟨others, left, hrest, h⟩ := gives_bind.mp h
    obtain ⟨rfl, rfl⟩ := gives_pure.mp h
    obtain ⟨rfl, hsame, hnames⟩ := ih hrest
    simp only [Bool.or_eq_true, decide_eq_true_eq, not_or, List.isEmpty_iff] at hname
    refine ⟨rfl, ?_, ?_⟩
    · rw [List.map_cons, hsame]
    · intro e he
      rcases List.mem_cons.mp he with rfl | he
      · exact ⟨hname.1, Nat.not_lt.mp hname.2⟩
      · exact hnames e he

theorem frames_draftEntries (entries : List (Name × Nat)) :
    Frames spare (draftEntries entries) b := by
  rw [draftEntries]
  refine frames_get_bind (frames_mapM (fun _ _ => ?_) entries b)
  exact frames_guard fun _ => frames_pure _

/-! ## Blocks -/

theorem frames_scatterBlock {fileBlock : Nat} {data : ByteArray} : ∀ {count k : Nat}
    {extents : List Extent} {spare : Nat → Prop} {b : Builder},
      Frames spare (scatterBlock fileBlock data count k extents) b
  | 0, _, _, _, _ => frames_pure _
  | count + 1, k, extents, spare, b => by
      rw [scatterBlock]
      refine frames_allocate_bind fun {address mid} hgained => ?_
      obtain ⟨ag, agBlock, hrun⟩ := hgained.run Nat.one_pos
      rw [← hgained.options] at hrun
      have hpiece : (window data (k * imageBlockSize) imageBlockSize).size ≤
          1 * imageBlockSize := by
        rw [size_window]
        omega
      refine frames_bind (frames_writeBlocks hrun Nat.one_pos hpiece fun hi => ?_)
        fun _ _ _ _ => ?_
      · rw [hgained.options] at hi
        exact Or.inr hi
      · exact frames_bind (frames_allocate 1) fun _ _ _ _ => frames_scatterBlock

theorem frames_placeBlock {extents : List Extent} {block : Nat × ByteArray}
    (hsize : block.2.size = b.options.dirBlockSize) :
    Frames spare (placeBlock extents block) b := by
  rw [placeBlock]
  refine frames_options_bind (frames_ite frames_scatterBlock ?_)
  refine frames_allocate_bind fun {address mid} hgained => ?_
  have hcount := b.options.blocksPerDirBlock_pos
  obtain ⟨ag, agBlock, hrun⟩ := hgained.run hcount
  rw [b.options.dirBlockSize_eq] at hsize
  generalize b.options.blocksPerDirBlock = count at hcount hrun hsize ⊢
  rw [← hgained.options] at hrun
  refine frames_bind (frames_writeBlocks hrun hcount (Nat.le_of_eq hsize) fun hi => ?_)
    fun _ _ _ _ => frames_pure _
  rw [hgained.options] at hi
  exact Or.inr hi

theorem frames_placeBlocks {blocks : PlacedBlocks}
    (hsize : ∀ x ∈ blocks, x.2.size = b.options.dirBlockSize) :
    Frames spare (placeBlocks blocks) b := by
  rw [placeBlocks]
  refine frames_bind (frames_foldlM b.options rfl fun extents c hc x hx => ?_)
    fun _ _ _ _ => frames_pure _
  apply frames_placeBlock
  rw [hc]
  exact hsize x (List.mem_mergeSort.mp hx)

/-! ## Directories -/

theorem frames_writeDir {ino parent : Nat} {entries : List (Name × Nat)} {layout : DirLayout}
    (hs : ∀ {i}, b.options.InSlot ino i → spare i) :
    Frames spare (writeDir ino parent entries layout) b := by
  intro hb
  rw [writeDir]
  refine frames_bind (frames_draftEntries entries) (fun {drafts mid} _ hdrafts _ _ => ?_) hb
  obtain ⟨rfl, -, -⟩ := draftEntries_spec hdrafts
  refine frames_options_bind ?_
  dsimp only
  by_cases hinline : layout = .inline
  · rw [if_pos hinline]
    exact frames_liftM_bind fun _ => frames_writeInode _ hs
  · rw [if_neg hinline]
    refine frames_liftM_bind fun {made} hmade => ?_
    obtain ⟨blocks, dataBlocks⟩ := made
    refine frames_bind (frames_placeBlocks (size_of_mem_directoryBlocks hb.accepted hmade))
      fun _ _ _ hplaced => ?_
    refine frames_bind (frames_writeFork ino _ none) fun _ _ _ hforked => ?_
    apply frames_writeInode
    intro i hi
    rw [hforked, hplaced] at hi
    exact hs hi

theorem makesInode_addDir (parent : Nat) (entries : List (Name × Nat)) (layout : DirLayout) :
    MakesInode (addDir parent entries layout) := by
  rw [addDir]
  refine makesInode_bind (fun ino spare b hs => ?_) fun h => ?_
  · exact frames_bind (frames_writeDir hs) fun _ _ _ _ => frames_pure _
  · simp only [gives_bind, gives_pure] at h
    obtain ⟨-, -, -, rfl, -⟩ := h
    rfl

end BuildM

end XfsVolume
