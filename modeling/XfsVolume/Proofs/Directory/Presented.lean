import XfsVolume.Proofs.Directory.Agreement

/-!
# Directories that present a listing

A directory presents a listing when it is of some format, its steps give the listing to the end, and
it can be searched (`Medium.Presents`). Each format comes down to what its blocks hold: the form in
the inode, the slots of the single block, or live hash entries that resolve to the listing.
-/

namespace XfsVolume

theorem firstNamed_of_mem {listing : List DirEntry} (hnames : (listing.map DirEntry.name).Nodup)
    {d : DirEntry} (hd : d ∈ listing) : firstNamed d.name listing = some d.target := by
  induction listing with
  | nil => cases hd
  | cons first rest ih =>
    rw [List.map_cons, List.nodup_cons] at hnames
    rcases List.mem_cons.mp hd with rfl | hd
    · rw [firstNamed, List.find?_cons_of_pos (by simp)]
      rfl
    · have hne : first.name ≠ d.name := by
        intro heq
        exact hnames.1 (heq ▸ List.mem_map_of_mem hd)
      rw [firstNamed, List.find?_cons_of_neg (by simpa using hne)]
      exact ih hnames.2 hd

namespace Medium

/-- The directory is of this format, its steps give the listing, and it can be searched. -/
structure Presents (m : Medium) (dir : Inode) (format : DirFormat) (listing : List DirEntry) :
    Prop where
  classified : m.dirFormat dir = .ok format
  searchable : m.SearchableAs dir format
  lists : Lists (m.listStep format dir) 0 listing
  few : listing.length < m.listingSteps

variable {m : Medium} {dir : Inode} {listing : List DirEntry} {c : BlockCache}

theorem Presents.readAll_eq {format : DirFormat} (h : m.Presents dir format listing)
    (hc : c.Agrees m.device) : ((m.readAll dir).run.run c).1 = .ok listing := by
  rw [(m.steady_readAll dir c hc).1]
  exact readAll_of_lists h.classified h.lists h.few

theorem Presents.lookupName_eq {format : DirFormat} (h : m.Presents dir format listing)
    (hc : c.Agrees m.device) {name : Name} (hne : name ≠ []) (hlen : name.length ≤ maxNameLength) :
    ((m.lookupName dir name).run.run c).1 = .ok (firstNamed name listing) := by
  rw [(m.steady_lookupName dir name c hc).1]
  exact fresh_lookupName h.classified h.searchable h.lists hne hlen

/-! ## Formats without an index -/

theorem lists_inline (h : m.inlineListing dir = .ok listing) :
    Lists (m.listStep .inline dir) 0 listing :=
  ((sequence_inline h).lists_iff rfl).mpr ⟨rfl, List.forall₂_same.mpr fun _ _ => rfl⟩

theorem blockWalk_eq {block : ByteArray} {crc : Bool} {tail : BlockTail}
    (hblock : m.dirBlock dir 0 = .ok block) (hheader : DataHeader.decode block = .ok ⟨.single, crc⟩)
    (htail : BlockTail.decode block (dataHeaderLength crc) = .ok tail) :
    fresh (m.blockWalk dir) =
      .ok (walkSlots block (dataHeaderLength crc) tail.indexOffset m.geometry.hasFtype) :=
  fresh_blockWalk_eq_ok.mpr ⟨block, ⟨.single, crc⟩, tail, hblock, hheader, rfl, htail, rfl⟩

theorem lists_block {walk : SlotWalk} (h : fresh (m.blockWalk dir) = .ok walk)
    (hend : walk.stoppedBy = none) :
    Lists (m.listStep .block dir) 0 (walk.entries.map DataEntry.toDirEntry) := by
  refine ((sequence_block h).lists_iff rfl).mpr ⟨?_, ?_⟩
  · rw [SlotWalk.outcome, hend]
  · rw [List.drop_zero, List.forall₂_map_right_iff, List.forall₂_same]
    exact fun _ _ => rfl

/-! ## Formats with an index -/

theorem lists_leaf {header : LeafHeader} {entries : List HashEntry}
    (h : fresh (m.readLeaf dir m.geometry.indexRegion .single) = .ok (header, entries))
    (hs : HashSorted entries) (hh : m.Hashed dir entries) (hr : m.Resolves dir entries listing) :
    m.SearchableAs dir .leaf ∧ Lists (m.listStep .leaf dir) 0 listing := by
  refine ⟨fun header' entries' h' => ?_, ((sequence_leaf h).lists_iff rfl).mpr ⟨rfl, ?_⟩⟩
  · rw [h] at h'
    cases h'
    exact ⟨hs, hh⟩
  · rw [List.drop_zero]
    exact hr

theorem lists_node {leaves : List IndexLeaf} (h : m.HashIndex dir leaves)
    (hr : m.Resolves dir (chainEntries leaves) listing) :
    m.SearchableAs dir .node ∧ Lists (m.listStep .node dir) 0 listing := by
  refine ⟨⟨leaves, h⟩, ((sequence_node h).lists_iff (Or.inl ⟨rfl, rfl⟩)).mpr ⟨rfl, ?_⟩⟩
  rw [remaining_zero]
  exact hr

end Medium

end XfsVolume
