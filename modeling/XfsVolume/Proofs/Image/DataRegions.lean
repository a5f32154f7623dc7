import XfsVolume.Proofs.Image.EntriesOnMedium

/-!
# Regions of slots

The slots that a loop over a data region goes over tile the region, whatever the bytes are. A region
that was filled is gone over as it was filled: the loop meets the stored entries in order, and the
address in each hash entry is that of the slot of its entry.
-/

namespace XfsVolume

/-- The address in `h` is that of a slot of directory block `db`, whose bytes are `b`, and the slot
holds `e`. The slot ends at or before byte `stop`, so that it is decoded in every region that does
not end before that byte. -/
structure Locates (o : ImageOptions) (db : Nat) (b : ByteArray) (stop : Nat) (h : HashEntry)
    (e : EntryDraft) : Prop where
  nonzero : h.address ≠ 0
  slot : ∃ off, h.address.toNat * addressUnit = db * o.dirBlockSize + off ∧
    (∀ limit, stop ≤ limit → limit ≤ b.size →
      DataSlot.decode b off limit o.ftype = .ok (.entry (e.stored o.ftype))) ∧
    ∀ geo : Geometry, o.Measures geo → stop ≤ o.dirBlockSize →
      geo.splitAddress h.address.toNat = (db, off)

variable {o : ImageOptions} {db stop : Nat}

theorem PointsAt.locates {b : ByteArray} {h : HashEntry} {e : EntryDraft}
    (hp : PointsAt o db b stop h e) (he : e.Storable) (hw : b.size < wordLimit) :
    Locates o db b stop h e := by
  obtain ⟨off, haddress, -, hend, hspells⟩ := hp.place
  have hentry := entryLength_bounds e.name.length o.ftype
  refine ⟨hp.address_ne_zero, off, haddress, ?_, ?_⟩
  · intro limit hstop hlimit
    exact DataSlot.decode_entry he hw hlimit (Nat.le_trans hend hstop) hspells
  · intro geo hm hstop
    exact hm.splitAddress_eq haddress (by omega)

theorem fillRegion_of_lt {block b : ByteArray} {es : List EntryDraft} {hashes : List HashEntry}
    {free : Nat} (h : fillRegion o db stop block es = .ok (b, hashes, free))
    (hheader : stop < dataHeaderLength o.isV5) : es = [] ∧ hashes = [] := by
  simp only [fillRegion, bind_eq_ok, pure_eq_ok] at h
  obtain ⟨⟨filled, last, hashes'⟩, hfill, room, hroom, h⟩ := h
  cases es with
  | nil =>
    cases hfill
    refine ⟨rfl, ?_⟩
    split at h
    · cases h
      rfl
    · cases h
      rfl
  | cons e rest =>
    simp only [fillEntries, throw_bind, ite_error_eq_ok] at hfill
    exact absurd hfill.1 (by omega)

/-- A filled region is read back: a walk meets the entries in order and nothing else, and each hash
entry holds the address of its entry. -/
theorem fillRegion_readBack (ho : o.Accepted) {block b : ByteArray} {es : List EntryDraft}
    {hashes : List HashEntry} {free : Nat} (hes : ∀ e ∈ es, e.Storable)
    (hsize : block.size ≤ 2 ^ 16) (hstop : stop ≤ block.size) (h8 : stop % 8 = 0)
    (h : fillRegion o db stop block es = .ok (b, hashes, free)) :
    (walkSlots b (dataHeaderLength o.isV5) stop o.ftype).entries = es.map (·.stored o.ftype) ∧
      (walkSlots b (dataHeaderLength o.isV5) stop o.ftype).stoppedBy = none ∧
      List.Forall₂ (Locates o (o.namedBlock db) b stop) hashes es := by
  rcases Nat.lt_or_ge stop (dataHeaderLength o.isV5) with hlt | hheader
  · obtain ⟨rfl, rfl⟩ := fillRegion_of_lt h hlt
    rw [walkSlots_of_le (Nat.le_of_lt hlt)]
    exact ⟨rfl, rfl, .nil⟩
  · obtain ⟨hsame, -, hfilled⟩ := fillRegion_spec ho h hheader h8 hstop
    have hw : b.size < wordLimit := by
      rw [hsame, wordLimit, UInt64.size]
      omega
    obtain ⟨hwalk, hend⟩ := hfilled.walkSlots_eq hw (by rwa [hsame]) hes
    refine ⟨hwalk, hend, ?_⟩
    have hpoints : List.Forall₂ (fun e h => PointsAt o (o.namedBlock db) b stop h e) es hashes :=
      hfilled.points.flip
    exact (((List.forall₂_and_left _ _).mpr ⟨hes, hpoints⟩).imp
      fun _ _ hp => hp.2.locates hp.1 hw).flip

/-- **Data regions tile and are read back.** The loop over a region of any block ends, and its
outcome is that of the walk; a loop that comes to the end unanswered went over slots that tile the
region, and handed over each entry among them once, in order. Over a region that was filled with
entries a walk meets these entries, and each hash entry has an address, other than zero, whose slot
holds its entry. -/
theorem dataRegions_tile_and_readBack :
    (∀ {σ τ : Type} (visit : DataEntry → σ → Option τ × σ) (block : ByteArray) (start stop : Nat)
      (ftype : Bool) (s : σ), start ≤ stop →
      (∃ slots out, Visits visit block stop ftype start s slots out) ∧
      ∀ slots out, Visits visit block stop ftype start s slots out →
        out = (walkSlots block start stop ftype).handTo visit s ∧
        (out.1 = .ok none → walkSlots block start stop ftype = ⟨slots, none⟩ ∧
          Tiled block stop ftype start slots ∧
          out.2 = (slots.filterMap DataSlot.entry?).foldl (fun s e => (visit e s).2) s)) ∧
    ∀ {o : ImageOptions}, o.Accepted → ∀ {block b : ByteArray} {db stop free : Nat}
      {es : List EntryDraft} {hashes : List HashEntry}, (∀ e ∈ es, e.Storable) →
      block.size ≤ 2 ^ 16 → stop ≤ block.size → stop % 8 = 0 →
      fillRegion o db stop block es = .ok (b, hashes, free) →
      (walkSlots b (dataHeaderLength o.isV5) stop o.ftype).entries = es.map (·.stored o.ftype) ∧
        (walkSlots b (dataHeaderLength o.isV5) stop o.ftype).stoppedBy = none ∧
        List.Forall₂ (Locates o (o.namedBlock db) b stop) hashes es := by
  refine ⟨?_, fun ho => fillRegion_readBack ho⟩
  intro σ τ visit block start stop ftype s hle
  refine ⟨exists_visits visit block stop ftype start s, ?_⟩
  intro slots out hvisits
  refine ⟨hvisits.eq_handTo, fun hout => ?_⟩
  obtain ⟨htiled, hstate⟩ := hvisits.tiled hout hle
  exact ⟨htiled.walkSlots_eq, htiled, hstate⟩

def typedV4 : ImageOptions := { ImageOptions.v4 with ftype := true }

/-- Two entries, which leave a free marker of eight bytes in a region that ends at byte 56. -/
def twoEntries : List EntryDraft := [⟨[0x61], 5, 1⟩, ⟨[0x62], 6, 2⟩]

/-- The two entries, counted by the loop and found at their addresses. -/
theorem dataRegions_twoEntries :
    typedV4.Accepted ∧ (∀ e ∈ twoEntries, e.Storable) ∧
      ∃ b hashes, fillRegion typedV4 0 56 (zeros 64) twoEntries = .ok (b, hashes, 8) ∧
        List.Forall₂ (Locates typedV4 0 b 56) hashes twoEntries ∧
        ∃ slots, Visits (fun _ n => ((none : Option Unit), n + 1)) b 56 true 16 0 slots
            (.ok none, 2) ∧ Tiled b 56 true 16 slots := by
  have ho : typedV4.Accepted :=
    ⟨by decide, by decide, by decide, by decide, by decide⟩
  have hes : ∀ e ∈ twoEntries, e.Storable := by
    rw [twoEntries, List.forall_mem_cons, List.forall_mem_cons]
    exact ⟨⟨by decide, by decide, by decide, by decide⟩,
      ⟨by decide, by decide, by decide, by decide⟩, by simp⟩
  have hfree : (fun filled => filled.2.2) <$> fillRegion typedV4 0 56 (zeros 64) twoEntries =
      .ok 8 := by decide +kernel
  obtain ⟨⟨b, hashes, free⟩, hfill, rfl⟩ := map_eq_ok.mp hfree
  obtain ⟨hloop, hfilled⟩ := dataRegions_tile_and_readBack
  obtain ⟨hentries, hend, hlocates⟩ := hfilled ho hes (by rw [size_zeros]; decide)
    (by rw [size_zeros]; decide) (by decide) hfill
  refine ⟨ho, hes, b, hashes, hfill, hlocates, ?_⟩
  obtain ⟨⟨slots, out, hvisits⟩, hall⟩ :=
    hloop (fun _ n => ((none : Option Unit), n + 1)) b 16 56 true 0 (by decide)
  obtain ⟨hout, htiled⟩ := hall slots out hvisits
  have hcount : out = (.ok none, 2) := by
    have hentries : (walkSlots b 16 56 true).entries = twoEntries.map (·.stored true) := hentries
    have hend : (walkSlots b 16 56 true).stoppedBy = none := hend
    rw [hout, SlotWalk.handTo, hentries, hend]
    rfl
  rw [hcount] at hvisits htiled
  exact ⟨slots, hvisits, (htiled rfl).2.1⟩

end XfsVolume
