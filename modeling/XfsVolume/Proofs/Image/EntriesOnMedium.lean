import XfsVolume.Proofs.Directory.Agreement
import XfsVolume.Proofs.Image.InlineForm

/-!
# Entries found by their addresses

An address names a data block and a byte in it. Where the data blocks are read back as they were
filled, the entry at the address that a hash entry holds is the one that it was made for, so that
hash entries resolve to what was stored, each with the hash of its name.
-/

namespace XfsVolume

namespace ImageOptions

variable {o : ImageOptions} {geo : Geometry} {db : Nat}

theorem dirBlockSize_eq_pow (o : ImageOptions) :
    o.dirBlockSize = 2 ^ (imageBlockLog + o.dirBlockLog) := by
  rw [dirBlockSize, Nat.shiftLeft_eq, Nat.pow_add]
  rfl

/-- An address is taken apart as it was put together. -/
theorem Measures.splitAddress_eq (hm : o.Measures geo) {address off : Nat}
    (h : address * 8 = db * o.dirBlockSize + off) (hoff : off < o.dirBlockSize) :
    geo.splitAddress address = (db, off) := by
  refine Geometry.splitAddress_eq ?_ (hm.dirBlockSize.symm ▸ h) (hm.dirBlockSize.symm ▸ hoff)
  rw [hm.blockLog, hm.dirBlockLog, hm.dirBlockSize]
  exact o.dirBlockSize_eq_pow

theorem Measures.dirFileBlock_eq (hm : o.Measures geo)
    (h : db * o.blocksPerDirBlock < 2 ^ 23) :
    geo.dirFileBlock db = db * o.blocksPerDirBlock := by
  rw [o.blocksPerDirBlock_eq] at h ⊢
  rw [Geometry.dirFileBlock, hm.dirBlockLog, Nat.shiftLeft_eq, wordLimit, UInt64.size]
  exact Nat.mod_eq_of_lt (by omega)

end ImageOptions

theorem PointsAt.address_ne_zero {o : ImageOptions} {db stop : Nat} {b : ByteArray} {h : HashEntry}
    {e : EntryDraft} (hp : PointsAt o db b stop h e) : h.address ≠ 0 := by
  obtain ⟨off, haddress, hheader, -⟩ := hp.place
  have hlength : 16 ≤ dataHeaderLength o.isV5 := by cases o.isV5 <;> decide
  intro hzero
  rw [hzero, UInt32.toNat_zero] at haddress
  omega

theorem PointsInto.not_isStale {o : ImageOptions} {blocks : PlacedBlocks} {e : HashEntry}
    {d : EntryDraft} (h : PointsInto o blocks e d) : e.isStale = false := by
  obtain ⟨db, block, -, hpoint⟩ := h
  exact beq_eq_false_iff_ne.mpr hpoint.address_ne_zero

namespace Medium

variable {m : Medium} {dir : Inode} {o : ImageOptions} {blocks : PlacedBlocks}

theorem fresh_entryAt {address : UInt32} {db off : Nat} {block : ByteArray} {header : DataHeader}
    {entry : DataEntry} (hsplit : m.geometry.splitAddress address.toNat = (db, off))
    (hregion : m.geometry.dirFileBlock db < m.geometry.indexRegion)
    (hblock : m.dirBlock dir (m.geometry.dirFileBlock db) = .ok block)
    (hheader : DataHeader.decode block = .ok header) (hkind : header.kind = .indexed)
    (hoff : header.length ≤ off)
    (hslot : DataSlot.decode block off block.size m.geometry.hasFtype = .ok (.entry entry)) :
    fresh (m.entryAt dir address) = .ok entry.toDirEntry := by
  rw [entryAt, hsplit]
  dsimp only
  rw [if_neg (Nat.not_le.mpr hregion)]
  refine (fresh_bind_ok (m.steady_readDirBlock dir _) (fun block => ?_) hblock).trans ?_
  · refine steady_bind (steady_liftM _) fun header => steady_guard _ fun _ => ?_
    refine steady_bind (steady_liftM _) fun slot => ?_
    cases slot with
    | entry e => exact steady_pure _
    | free n => exact steady_throw _
  · rw [decodedIn, hheader, mapError_ok]
    refine (fresh_liftM_bind _ _).trans ?_
    rw [ok_bind, if_neg, decodedIn, hslot]
    · rfl
    · rw [Bool.or_eq_true, decide_eq_true_eq, decide_eq_true_eq, not_or]
      exact ⟨not_not.mpr hkind, Nat.not_lt.mpr hoff⟩

theorem entryAt_of_points (ho : o.Accepted) (hm : o.Measures m.geometry)
    (hblocks : ∀ x ∈ blocks, IndexedBlock o x.2 ∧ x.1 < 2 ^ 23)
    (hread : ∀ x ∈ blocks, m.dirBlock dir x.1 = .ok x.2) {e : HashEntry} {d : EntryDraft}
    (h : PointsInto o blocks e d) (hd : d.Storable) :
    fresh (m.entryAt dir e.address) = .ok (d.listed o.ftype) := by
  obtain ⟨db, block, hin, hpoint⟩ := h
  obtain ⟨off, haddress, hheader, hend, hspells⟩ := hpoint.place
  have hlength := entryLength_bounds d.name.length o.ftype
  obtain ⟨⟨hsize, hmark⟩, hlow⟩ := hblocks _ hin
  dsimp only at hsize hmark hlow
  have hplace := hm.dirFileBlock_eq hlow
  have hw : block.size < wordLimit := ho.lt_wordLimit hsize
  have hslot : DataSlot.decode block off block.size m.geometry.hasFtype =
      .ok (.entry (d.stored o.ftype)) := by
    rw [hm.hasFtype]
    exact DataSlot.decode_entry hd hw (Nat.le_refl _) (by rwa [hsize]) hspells
  rw [← hd.toDirEntry_stored]
  refine fresh_entryAt (hm.splitAddress_eq haddress (by omega)) ?_ ?_ hmark rfl hheader hslot
  · rw [hplace, hm.indexRegion]
    exact hlow
  · rw [hplace]
    exact hread (db * o.blocksPerDirBlock, block) hin

/-- Hash entries resolve to the entries that they were made for, and carry the hashes of their
names. -/
theorem resolves_of_points (ho : o.Accepted) (hm : o.Measures m.geometry)
    (hblocks : ∀ x ∈ blocks, IndexedBlock o x.2 ∧ x.1 < 2 ^ 23)
    (hread : ∀ x ∈ blocks, m.dirBlock dir x.1 = .ok x.2) {hashes : List HashEntry}
    {stored : List EntryDraft} (h : List.Forall₂ (PointsInto o blocks) hashes stored)
    (hstored : ∀ d ∈ stored, d.Storable) :
    m.Resolves dir hashes (stored.map (·.listed o.ftype)) ∧ m.Hashed dir hashes := by
  induction h with
  | nil => exact ⟨.nil, fun e he => by cases he⟩
  | @cons e d hashes stored hpoint _ ih =>
    obtain ⟨hd, hrest⟩ := List.forall_mem_cons.mp hstored
    obtain ⟨hresolves, hhashed⟩ := ih hrest
    have hentry := entryAt_of_points ho hm hblocks hread hpoint hd
    have hlive := liveEntries_cons_live hpoint.not_isStale hashes
    rw [Resolves, Hashed, hlive]
    refine ⟨.cons hentry hresolves, List.forall_mem_cons.mpr ⟨fun found hfound => ?_, hhashed⟩⟩
    rw [hentry] at hfound
    cases hfound
    obtain ⟨_, _, -, hat⟩ := hpoint
    exact hat.hash.symm

end Medium

end XfsVolume
