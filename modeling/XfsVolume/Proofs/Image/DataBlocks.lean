import Mathlib.Data.List.Forall2
import Mathlib.Data.List.Perm.Basic
import XfsVolume.Image.DirectoryBlock
import XfsVolume.Proofs.Directory.EntryAddresses
import XfsVolume.Proofs.Directory.SlotWalks
import XfsVolume.Proofs.Fields
import XfsVolume.Proofs.Image.Options
import XfsVolume.Proofs.Steps

/-!
# Data blocks written and read back

Entries stand one behind the other in a data block (`EntriesAt`), and a free marker fills what is
left of it, so that a walk over the slots meets the entries in order and ends where it should. Each
hash entry carries the hash of a name and the place of the entry of that name.
-/

namespace XfsVolume

/-! ## One entry -/

/-- An entry that can be stored. Inode numbers whose top bits are all ones would be taken for a free
marker. -/
structure EntryDraft.Storable (e : EntryDraft) : Prop where
  named : e.name ≠ []
  nameLength : e.name.length ≤ maxNameLength
  ino : e.ino < UInt64.size
  notFree : e.ino / 2 ^ 48 ≠ 0xFFFF

/-- The entry as it is read back. -/
def EntryDraft.stored (e : EntryDraft) (ftype : Bool) : DataEntry where
  ino := UInt64.ofNat e.ino
  name := e.name
  ftype := if ftype then some e.ftype else none
  length := entryLength e.name.length ftype

theorem length_encodeDataEntry (ftype : Bool) (off : Nat) (e : EntryDraft) :
    (encodeDataEntry ftype off e).length = entryLength e.name.length ftype := by
  have hbounds := entryLength_bounds e.name.length ftype
  cases ftype with
  | false =>
    simp [encodeDataEntry] at hbounds ⊢
    omega
  | true =>
    simp [encodeDataEntry] at hbounds ⊢
    omega

theorem spells_encodeDataEntry {b : ByteArray} {ftype : Bool} {off : Nat} {e : EntryDraft}
    (h : Spells b off (encodeDataEntry ftype off e)) :
    Spells b off (beBytes 8 e.ino) ∧ byteAt b (off + 8) = UInt8.ofNat e.name.length ∧
      Spells b (off + 9) e.name ∧ (ftype = true → byteAt b (off + 9 + e.name.length) = e.ftype) := by
  rw [encodeDataEntry] at h
  simp only [spells_append, spells_cons, length_beBytes, List.length_append,
    List.length_cons] at h
  obtain ⟨⟨⟨⟨hino, hlength, hname⟩, hcode⟩, -⟩, -⟩ := h
  refine ⟨hino, hlength, hname, ?_⟩
  rintro rfl
  rw [if_pos rfl, spells_cons] at hcode
  have hplace : off + 9 + e.name.length = off + (8 + (e.name.length + 1)) := by omega
  rw [hplace]
  exact hcode.1

/-- An entry is read back from where it was written. -/
theorem DataSlot.decode_entry {b : ByteArray} {off stop : Nat} {ftype : Bool} {e : EntryDraft}
    (he : e.Storable) (hw : b.size < wordLimit) (hstop : stop ≤ b.size)
    (hend : off + entryLength e.name.length ftype ≤ stop)
    (h : Spells b off (encodeDataEntry ftype off e)) :
    DataSlot.decode b off stop ftype = .ok (.entry (e.stored ftype)) := by
  have hbounds := entryLength_bounds e.name.length ftype
  have hsize : (window b 0 stop).size = stop := size_window_of_le (by omega)
  have hregion : Spells (window b 0 stop) off (encodeDataEntry ftype off e) := by
    apply h.congr
    intro i hi
    rw [length_encodeDataEntry] at hi
    rw [byteAt_window (by omega), Nat.zero_add]
  obtain ⟨hino, hlength, hname, hcode⟩ := spells_encodeDataEntry hregion
  rw [DataSlot.decode, readBytes_eq hw (by omega), ok_bind]
  have hlen := he.nameLength
  have hwin : (window b 0 stop).size < wordLimit := by omega
  generalize window b 0 stop = region at hsize hino hlength hname hcode hwin ⊢
  have hinoAt : beNat region off 8 = e.ino := by
    rw [hino.beNat]
    exact Nat.mod_eq_of_lt he.ino
  have htag : (UInt16.ofNat (beNat region off 2) == freeTag) = false := by
    have hfirst := beNat_eq_div region off 2 6
    rw [hinoAt] at hfirst
    rw [beq_eq_false_iff_ne, hfirst]
    intro heq
    have hlt : e.ino / 256 ^ 6 < UInt16.size := by
      have := he.ino
      rw [UInt64.size] at this
      rw [UInt16.size]
      omega
    have hnat := congrArg UInt16.toNat heq
    rw [UInt16.toNat_ofNat_of_lt' hlt] at hnat
    exact he.notFree hnat
  rw [maxNameLength] at hlen
  have hnat : (UInt8.ofNat e.name.length).toNat = e.name.length :=
    UInt8.toNat_ofNat_of_lt' (by rw [UInt8.size]; omega)
  have hnonzero : e.name.length ≠ 0 := fun hzero => he.named (List.length_eq_zero_iff.mp hzero)
  rw [readU16_eq hwin (by omega), ok_bind, htag, if_neg Bool.false_ne_true,
    readU64_eq hwin (by omega), ok_bind, hinoAt, readU8_eq hwin (by omega), ok_bind, hlength, hnat]
  dsimp only
  rw [if_neg hnonzero, need_eq_ok hwin (by omega), ok_bind, readBytes_eq hwin (by omega), ok_bind,
    hname.window (by omega)]
  cases ftype with
  | false => rfl
  | true =>
    rw [if_pos rfl, readU8_eq hwin (by simp at hbounds; omega), hcode rfl]
    rfl

/-! ## Entries one behind the other -/

/-- Entries stand one behind the other from byte `off` to byte `last`. -/
def EntriesAt (b : ByteArray) (ftype : Bool) : (off : Nat) → List EntryDraft → (last : Nat) → Prop
  | off, [], last => off = last
  | off, e :: rest, last => Spells b off (encodeDataEntry ftype off e) ∧
      EntriesAt b ftype (off + entryLength e.name.length ftype) rest last

section

variable {b c : ByteArray} {ftype : Bool} {last : Nat}

theorem EntriesAt.bounds : ∀ {es : List EntryDraft} {off : Nat}, EntriesAt b ftype off es last →
    off ≤ last ∧ last % 8 = off % 8
  | [], off, h => by
      cases h
      exact ⟨Nat.le_refl _, rfl⟩
  | e :: rest, off, h => by
      have hlength := entryLength_bounds e.name.length ftype
      have hrest := EntriesAt.bounds h.2
      omega

theorem EntriesAt.congr : ∀ {es : List EntryDraft} {off : Nat}, EntriesAt b ftype off es last →
    (∀ i, off ≤ i → i < last → byteAt c i = byteAt b i) → EntriesAt c ftype off es last
  | [], _, h, _ => h
  | e :: rest, off, h, hsame => by
      have hrest := h.2.bounds
      refine ⟨h.1.congr fun i hi => ?_, EntriesAt.congr h.2 fun i hi hlt => hsame i (by omega) hlt⟩
      rw [length_encodeDataEntry] at hi
      exact hsame (off + i) (by omega) (by omega)

/-- What is left behind the entries, up to `stop`: nothing, or a free marker. -/
def FreeFrom (b : ByteArray) (last stop : Nat) : Prop :=
  last = stop ∨ last < stop ∧ last % 8 = 0 ∧ stop % 8 = 0 ∧ beNat b last 2 = freeTag.toNat ∧
    stop - last < 2 ^ 16 ∧ beNat b (last + 2) 2 = stop - last

theorem DataSlot.decode_free {stop : Nat} (hw : b.size < wordLimit) (hstop : stop ≤ b.size)
    (h : FreeFrom b last stop) (hlt : last < stop) :
    DataSlot.decode b last stop ftype = .ok (.free (stop - last)) := by
  rcases h with rfl | ⟨-, hlast, hend, htag, hbits, hlength⟩
  · exact absurd hlt (Nat.lt_irrefl _)
  · have hsize : (window b 0 stop).size = stop := size_window_of_le (by omega)
    have htagAt : readU16 (window b 0 stop) last = .ok freeTag := by
      rw [readU16_eq (by omega) (by omega), beNat_window (by omega), Nat.zero_add, htag,
        UInt16.ofNat_toNat]
    have hlengthAt : readU16 (window b 0 stop) (last + 2) = .ok (UInt16.ofNat (stop - last)) := by
      rw [readU16_eq (by omega) (by omega), beNat_window (by omega), Nat.zero_add, hlength]
    have hnat : (UInt16.ofNat (stop - last)).toNat = stop - last :=
      UInt16.toNat_ofNat_of_lt' hbits
    rw [DataSlot.decode, readBytes_eq hw (by omega), ok_bind, htagAt, ok_bind, if_pos (by rfl),
      hlengthAt, ok_bind, hnat]
    dsimp only
    rw [if_neg (by simp only [Bool.or_eq_true, decide_eq_true_eq, ne_eq]; omega),
      need_eq_ok (by omega) (by omega)]
    rfl

/-- Entries and the free space behind them tile the region. -/
theorem EntriesAt.tiled {stop : Nat} (hw : b.size < wordLimit) (hstop : stop ≤ b.size)
    (hlast : last ≤ stop) (hfree : FreeFrom b last stop) :
    ∀ {es : List EntryDraft} {off : Nat}, EntriesAt b ftype off es last → (∀ e ∈ es, e.Storable) →
      Tiled b stop ftype off (es.map (fun e => .entry (e.stored ftype)) ++
        if last < stop then [.free (stop - last)] else [])
  | [], _, h, _ => by
      cases h
      rw [List.map_nil, List.nil_append]
      by_cases hlt : last < stop
      · rw [if_pos hlt]
        refine .cons (DataSlot.decode_free hw hstop hfree hlt) ?_
        rw [DataSlot.length]
        exact Nat.add_sub_of_le hlast
      · rw [if_neg hlt]
        exact Nat.le_antisymm hlast (Nat.not_lt.mp hlt)
  | e :: rest, off, h, hes => by
      obtain ⟨he, hrest⟩ := List.forall_mem_cons.mp hes
      have hend := Nat.le_trans h.2.bounds.1 hlast
      refine .cons (DataSlot.decode_entry he hw hstop hend h.1) ?_
      exact EntriesAt.tiled hw hstop hlast hfree h.2 hrest

end

/-! ## Filling a block -/

theorem ImageOptions.Accepted.dirBlockLog_le {o : ImageOptions} (ho : o.Accepted) : o.dirBlockLog ≤ 52 :=
  Nat.le_trans ho.dirBlockLog (by decide)

/-- The blocks of which a data region can consist are named as they are. -/
theorem ImageOptions.Accepted.namedBlock_eq {o : ImageOptions} (ho : o.Accepted) {db : Nat}
    (h : db ≤ 2 ^ 23) : o.namedBlock db = db := by
  have hlog := ho.dirBlockLog
  have hpow : 2 ^ 48 ≤ 2 ^ (52 - o.dirBlockLog) := Nat.pow_le_pow_right (by decide) (by omega)
  exact ImageOptions.namedBlock_eq (by omega)

/-- `h` carries the hash of the name of `e`, and the place of `e` in data block `db`, which is `b`;
the entry ends at or before byte `stop` of the block. -/
structure PointsAt (o : ImageOptions) (db : Nat) (b : ByteArray) (stop : Nat) (h : HashEntry)
    (e : EntryDraft) : Prop where
  hash : h.hash = nameHash e.name
  place : ∃ off, h.address.toNat * 8 = db * o.dirBlockSize + off ∧ dataHeaderLength o.isV5 ≤ off ∧
    off + entryLength e.name.length o.ftype ≤ stop ∧ Spells b off (encodeDataEntry o.ftype off e)

section

variable {o : ImageOptions} {db stop : Nat}

theorem PointsAt.congr {b c : ByteArray} {h : HashEntry} {e : EntryDraft} {last : Nat}
    (hp : PointsAt o db b last h e) (hlast : last ≤ stop)
    (hsame : ∀ i, dataHeaderLength o.isV5 ≤ i → i < last → byteAt c i = byteAt b i) :
    PointsAt o db c stop h e := by
  obtain ⟨off, haddress, hheader, hend, hspells⟩ := hp.place
  refine ⟨hp.hash, off, haddress, hheader, by omega, hspells.congr fun i hi => ?_⟩
  rw [length_encodeDataEntry] at hi
  exact hsame _ (by omega) (by omega)

theorem fillEntries_spec (ho : o.Accepted) : ∀ {es : List EntryDraft} {off last : Nat}
    {block b : ByteArray} {hashes : List HashEntry},
    fillEntries o db stop off block es = .ok (b, last, hashes) → off % 8 = 0 →
      dataHeaderLength o.isV5 ≤ off → off ≤ stop → stop ≤ block.size →
      b.size = block.size ∧ last ≤ stop ∧ EntriesAt b o.ftype off es last ∧
        (∀ i, i < off ∨ last ≤ i → byteAt b i = byteAt block i) ∧
        List.Forall₂ (PointsAt o (o.namedBlock db) b last) hashes es
  | [], off, last, block, b, hashes, h, _, _, hoff, _ => by
      cases h
      exact ⟨rfl, hoff, rfl, fun _ _ => rfl, .nil⟩
  | e :: rest, off, last, block, b, hashes, h, h8, hheader, hoff, hstop => by
      have hlength := entryLength_bounds e.name.length o.ftype
      simp only [fillEntries, bind_eq_ok, ite_error_eq_ok, throw_bind, pure_eq_ok] at h
      obtain ⟨hroom, -, -, address, haddress, ⟨b', last', hashes'⟩, hfill, heq⟩ := h
      dsimp only at heq
      cases heq
      have hentry : (encodeDataEntry o.ftype off e).toByteArray.size =
          entryLength e.name.length o.ftype := by
        rw [List.size_toByteArray, length_encodeDataEntry]
      have hin : off + (encodeDataEntry o.ftype off e).toByteArray.size ≤ block.size := by omega
      have hsize := size_overwrite hin
      obtain ⟨hsize', hlast, hentries, hsame, hpoints⟩ := fillEntries_spec ho hfill (by omega)
        (by omega) (by omega) (by rw [hsize]; exact hstop)
      have hbounds := hentries.bounds
      have hspells : Spells b off (encodeDataEntry o.ftype off e) := by
        have hlast : off + (encodeDataEntry o.ftype off e).length ≤ block.size := by
          rwa [List.size_toByteArray] at hin
        refine (spells_overwrite hlast).congr ?_
        intro i hi
        rw [length_encodeDataEntry] at hi
        exact hsame _ (Or.inl (by omega))
      obtain ⟨hlt, hplace⟩ := o.entryAddress_eq_ok ho.dirBlockLog_le h8 haddress
      refine ⟨hsize'.trans hsize, hlast, ⟨hspells, hentries⟩, fun i hi => ?_, .cons ⟨rfl, off, ?_,
        hheader, hbounds.1, hspells⟩ hpoints⟩
      · rw [hsame i (by omega), byteAt_overwrite hin, if_neg (by omega)]
      · rw [UInt32.toNat_ofNat_of_lt' hlt]
        exact hplace

/-- Entries stand behind the header of data block `db`, which is `b`, and a free marker behind them
up to byte `stop`; the hash entries point at them. -/
structure Filled (o : ImageOptions) (db : Nat) (b : ByteArray) (stop : Nat) (es : List EntryDraft)
    (hashes : List HashEntry) : Prop where
  entries : ∃ last, EntriesAt b o.ftype (dataHeaderLength o.isV5) es last ∧ last ≤ stop ∧
    FreeFrom b last stop
  points : List.Forall₂ (PointsAt o db b stop) hashes es

/-- A filled region is as it was filled, whatever becomes of the block outside it. -/
theorem Filled.congr {b c : ByteArray} {es : List EntryDraft} {hashes : List HashEntry}
    (h : Filled o db b stop es hashes)
    (hsame : ∀ i, dataHeaderLength o.isV5 ≤ i → i < stop → byteAt c i = byteAt b i) :
    Filled o db c stop es hashes := by
  obtain ⟨last, hentries, hlast, hfree⟩ := h.entries
  have hbounds := hentries.bounds
  refine ⟨⟨last, hentries.congr fun i hi hlt => hsame i hi (by omega), hlast, ?_⟩,
    h.points.imp fun _ _ hp => hp.congr (Nat.le_refl _) hsame⟩
  rcases hfree with rfl | ⟨hlt, hlast8, h8, htag, hbits, hlength⟩
  · exact Or.inl rfl
  · have hread {off : Nat} (h : last ≤ off) (hin : off + 2 ≤ stop) :
        beNat c off 2 = beNat b off 2 :=
      beNat_congr fun i hi => hsame _ (by omega) (by omega)
    refine Or.inr ⟨hlt, hlast8, h8, ?_, hbits, ?_⟩
    · rw [hread (Nat.le_refl _) (by omega), htag]
    · rw [hread (by omega) (by omega), hlength]

/-- A walk over a filled region meets its entries in order, and nothing else. -/
theorem Filled.walkSlots_eq {b : ByteArray} {es : List EntryDraft} {hashes : List HashEntry}
    (h : Filled o db b stop es hashes) (hw : b.size < wordLimit) (hstop : stop ≤ b.size)
    (hes : ∀ e ∈ es, e.Storable) :
    (walkSlots b (dataHeaderLength o.isV5) stop o.ftype).entries = es.map (·.stored o.ftype) ∧
      (walkSlots b (dataHeaderLength o.isV5) stop o.ftype).stoppedBy = none := by
  obtain ⟨last, hentries, hlast, hfree⟩ := h.entries
  rw [(EntriesAt.tiled hw hstop hlast hfree hentries hes).walkSlots_eq]
  have hslots : (es.map fun e => DataSlot.entry (e.stored o.ftype)).filterMap DataSlot.entry? =
      es.map (·.stored o.ftype) := by
    rw [List.filterMap_map]
    exact congrFun (List.filterMap_eq_map (f := fun e : EntryDraft => e.stored o.ftype)) es
  refine ⟨?_, rfl⟩
  rw [SlotWalk.entries, List.filterMap_append, hslots]
  split
  · exact List.append_nil _
  · exact List.append_nil _

/-- Fields of a free marker from byte `last` to byte `stop`, and of the note of it at byte `large`. -/
def markerFields (large last stop : Nat) : List Field :=
  [⟨last, 2, freeTag.toNat⟩, ⟨last + 2, 2, stop - last⟩, ⟨stop - 2, 2, last⟩, ⟨large, 2, last⟩,
    ⟨large + 2, 2, stop - last⟩]

theorem writeFields_marker {b : ByteArray} {large header last : Nat} (hfour : 4 ≤ large)
    (hlarge : large + 4 ≤ header) (hheader : header ≤ last) (hroom : last + 8 ≤ stop)
    (hstop : stop ≤ b.size) (hbits : stop - last < 2 ^ 16) :
    (writeFields b (markerFields large last stop)).size = b.size ∧
      (∀ i, i < 4 ∨ header ≤ i ∧ i < last →
        byteAt (writeFields b (markerFields large last stop)) i = byteAt b i) ∧
      beNat (writeFields b (markerFields large last stop)) last 2 = freeTag.toNat ∧
      beNat (writeFields b (markerFields large last stop)) (last + 2) 2 = stop - last := by
  have hin : ∀ f ∈ markerFields large last stop, f.stop ≤ b.size := by
    simp only [markerFields, List.forall_mem_cons, Field.stop, List.not_mem_nil, false_implies,
      implies_true, and_true]
    omega
  have hapart : (markerFields large last stop).Pairwise Field.Apart := by
    simp only [markerFields, List.pairwise_cons, List.forall_mem_cons, Field.Apart, Field.stop,
      List.not_mem_nil, false_implies, implies_true, and_true, List.Pairwise.nil]
    omega
  refine ⟨size_writeFields hin, fun i hi => byteAt_writeFields_of_outside hin ?_, ?_, ?_⟩
  · simp only [markerFields, List.forall_mem_cons, Field.stop, List.not_mem_nil, false_implies,
      implies_true, and_true]
    omega
  · exact beNat_writeFields hin hapart ⟨last, 2, freeTag.toNat⟩ List.mem_cons_self
  · have hread := beNat_writeFields hin hapart ⟨last + 2, 2, stop - last⟩
      (List.mem_cons_of_mem _ List.mem_cons_self)
    exact hread.trans (Nat.mod_eq_of_lt hbits)

theorem fillRegion_spec (ho : o.Accepted) {block b : ByteArray} {es : List EntryDraft}
    {hashes : List HashEntry} {free : Nat}
    (h : fillRegion o db stop block es = .ok (b, hashes, free))
    (hheader : dataHeaderLength o.isV5 ≤ stop) (h8 : stop % 8 = 0) (hstop : stop ≤ block.size) :
    b.size = block.size ∧ beNat b 0 4 = beNat block 0 4 ∧
      Filled o (o.namedBlock db) b stop es hashes := by
  have hheader8 : dataHeaderLength o.isV5 % 8 = 0 := by
    cases o.isV5 <;> rfl
  have hlarge : ∃ large : Nat, (if o.isV5 then 48 else 4) = large ∧ 4 ≤ large ∧
      large + 4 ≤ dataHeaderLength o.isV5 := by
    cases o.isV5 with
    | false => exact ⟨4, rfl, by decide, by decide⟩
    | true => exact ⟨48, rfl, by decide, by decide⟩
  obtain ⟨large, hlargeEq, hfour, hinside⟩ := hlarge
  simp only [fillRegion, bind_eq_ok, pure_eq_ok, hlargeEq] at h
  obtain ⟨⟨filled, last, hashes'⟩, hfill, room, hroom, h⟩ := h
  obtain ⟨hsize, hlast, hentries, hsame, hpoints⟩ :=
    fillEntries_spec ho hfill hheader8 (Nat.le_refl _) hheader hstop
  have hbounds := hentries.bounds
  have hmagic : beNat filled 0 4 = beNat block 0 4 :=
    beNat_congr fun i hi => hsame _ (Or.inl (by omega))
  obtain ⟨hbits, rfl⟩ := fitting_eq_ok.mp hroom
  dsimp only at h
  by_cases hzero : stop - last = 0
  · rw [if_pos hzero] at h
    cases h
    refine ⟨hsize, hmagic, ⟨last, hentries, hlast, Or.inl (by omega)⟩,
      hpoints.imp fun _ _ hp => hp.congr hlast fun _ _ _ => rfl⟩
  · rw [if_neg hzero] at h
    cases h
    obtain ⟨hsize', hsame', htag, hlength⟩ := writeFields_marker (b := filled) hfour hinside
      hbounds.1 (show last + 8 ≤ stop by omega) (by omega) hbits
    rw [markerFields] at hsize' hsame' htag hlength
    refine ⟨hsize'.trans hsize, ?_, ⟨last, ?_, hlast, Or.inr ?_⟩, ?_⟩
    · exact (beNat_congr fun i hi => hsame' _ (Or.inl (by omega))).trans hmagic
    · exact hentries.congr fun i hi hlt => hsame' _ (Or.inr ⟨hi, hlt⟩)
    · exact ⟨by omega, by omega, h8, htag, hbits, hlength⟩
    · exact hpoints.imp fun _ _ hp => hp.congr hlast fun i hi hlt => hsame' _ (Or.inr ⟨hi, hlt⟩)

end

/-! ## Headers -/

theorem DataHeader.decode_eq {b : ByteArray} {kind : DataKind} {crc : Bool}
    (hw : b.size < wordLimit) (hsize : dataHeaderLength crc ≤ b.size)
    (hmagic : beNat b 0 4 = (if crc then kind.magicCrc else kind.magic).toNat) :
    DataHeader.decode b = .ok ⟨kind, crc⟩ := by
  have hlength : 4 ≤ dataHeaderLength crc := by
    cases crc <;> decide
  have hof : DataHeader.ofMagic? (if crc then kind.magicCrc else kind.magic) = some ⟨kind, crc⟩ := by
    cases kind <;> cases crc <;> rfl
  rw [DataHeader.decode, readU32_eq hw (by omega), ok_bind, hmagic, UInt32.ofNat_toNat, hof]
  dsimp only
  rw [DataHeader.length, need_eq_ok hw (by rwa [Nat.zero_add])]
  rfl

theorem ImageOptions.dataBlock_spec {o : ImageOptions} (ho : o.Accepted) (owner : Nat)
    (kind : DataKind) : (o.dataBlock owner kind).size = o.dirBlockSize ∧
      beNat (o.dataBlock owner kind) 0 4 =
        (if o.isV5 then kind.magicCrc else kind.magic).toNat := by
  have hsize := ho.dirBlockSize_bounds.1
  rw [dataBlock]
  cases o.isV5 with
  | false =>
    have hlaid : Field.Laid 0 o.dirBlockSize [⟨0, 4, kind.magic.toNat⟩] := by
      simp only [Field.Laid, Field.stop, Nat.le_refl, true_and]
      omega
    exact ⟨hlaid.size_blockOf, hlaid.beNat_blockOf List.mem_cons_self (UInt32.toNat_lt _)⟩
  | true =>
    have hlaid : Field.Laid 0 o.dirBlockSize [⟨0, 4, kind.magicCrc.toNat⟩, ⟨40, 8, owner⟩] := by
      simp only [Field.Laid, Field.stop, Nat.le_refl, true_and]
      omega
    exact ⟨hlaid.size_blockOf, hlaid.beNat_blockOf List.mem_cons_self (UInt32.toNat_lt _)⟩

/-! ## The single block -/

theorem length_hashNumbers (hashes : List HashEntry) :
    (hashNumbers hashes).length = 2 * hashes.length := by
  induction hashes with
  | nil => rfl
  | cons h hs ih =>
    rw [hashNumbers, List.flatMap_cons, List.length_append, ← hashNumbers, ih, List.length_cons]
    simp only [List.length_cons, List.length_nil]
    omega

theorem length_sortHashes (hashes : List HashEntry) : (sortHashes hashes).length = hashes.length :=
  List.length_mergeSort _

/-- What is read from a block that ends in the hash entries of `n` names. -/
theorem BlockTail.decode_eq {b : ByteArray} {n header start : Nat} (hw : b.size < 2 ^ 32)
    (hsize : b.size = start + 8 * n + 8) (hheader : header ≤ start)
    (hcount : beNat b (b.size - 8) 4 = n) (hstale : beNat b (b.size - 4) 4 = 0) :
    ∃ tail, BlockTail.decode b header = .ok tail ∧ tail.indexOffset = start := by
  have hword : b.size < wordLimit := by
    rw [wordLimit, UInt64.size]
    omega
  have hnat : (UInt32.ofNat n).toNat = n :=
    UInt32.toNat_ofNat_of_lt' (by rw [UInt32.size]; omega)
  have hplace : b.size - 8 + 4 = b.size - 4 := by omega
  have hfew : ¬ UInt32.ofNat 0 > UInt32.ofNat n := by
    rw [gt_iff_lt, UInt32.not_lt, UInt32.le_iff_toNat_le]
    exact Nat.zero_le _
  refine ⟨{ count := UInt32.ofNat n, stale := UInt32.ofNat 0, indexOffset := start }, ?_, rfl⟩
  rw [BlockTail.decode, if_neg (by omega)]
  dsimp only
  rw [readU32_eq hword (by omega), ok_bind, hplace, readU32_eq hword (by omega), ok_bind, hcount,
    hstale, hnat, hashEntryLength]
  rw [if_neg (by omega)]
  have hoffset : b.size - 8 - n * 8 = start := by omega
  rw [hoffset, if_neg]
  · rfl
  · simp only [Bool.or_eq_true, decide_eq_true_eq, not_or]
    exact ⟨Nat.not_lt.mpr hheader, hfew⟩

theorem writeFields_tail {filled : ByteArray} {start n size : Nat} {numbers : List Nat}
    (hsize : filled.size = size) (hstart : size = start + 8 * n + 8)
    (hlength : numbers.length = 2 * n) (hn : n < 2 ^ 32) {b : ByteArray}
    (hb : b = writeFields filled
      (fieldRun start 4 numbers ++ [⟨size - 8, 4, n⟩, ⟨size - 4, 4, 0⟩])) :
    b.size = size ∧ (∀ i < start, byteAt b i = byteAt filled i) ∧
      beNat b (size - 8) 4 = n ∧ beNat b (size - 4) 4 = 0 := by
  have hrun := Field.laid_fieldRun 4 numbers start
  rw [hlength] at hrun
  have htail : Field.Laid (start + 8 * n) size [⟨size - 8, 4, n⟩, ⟨size - 4, 4, 0⟩] := by
    simp only [Field.Laid, Field.stop]
    omega
  have hlaid := (hrun.mono (show _ ≤ start + 8 * n by omega)).append htail
  have hin : ∀ f ∈ fieldRun start 4 numbers ++ [⟨size - 8, 4, n⟩, ⟨size - 4, 4, 0⟩],
      f.stop ≤ filled.size := fun f hf => by
    rw [hsize]
    exact (hlaid.bounds f hf).2
  have hread := beNat_writeFields hin hlaid.pairwise
  rw [← hb] at hread
  refine ⟨?_, fun i hi => ?_, ?_, ?_⟩
  · rw [hb, size_writeFields hin, hsize]
  · rw [hb]
    exact byteAt_writeFields_of_outside hin fun f hf =>
      Or.inl (Nat.lt_of_lt_of_le hi (hlaid.bounds f hf).1)
  · exact (hread ⟨size - 8, 4, n⟩ (by simp)).trans (Nat.mod_eq_of_lt hn)
  · exact hread ⟨size - 4, 4, 0⟩ (by simp)

theorem singleBlock_filled {o : ImageOptions} (ho : o.Accepted) {owner : Nat}
    {es : List EntryDraft} {b : ByteArray} (h : singleBlock o owner es = .ok b) :
    b.size = o.dirBlockSize ∧ DataHeader.decode b = .ok ⟨.single, o.isV5⟩ ∧
      ∃ tail hashes, BlockTail.decode b (dataHeaderLength o.isV5) = .ok tail ∧
        tail.indexOffset ≤ b.size ∧ Filled o 0 b tail.indexOffset es hashes := by
  have hbounds := ho.dirBlockSize_bounds
  obtain ⟨hblank, hmark⟩ := ImageOptions.dataBlock_spec ho owner .single
  simp only [singleBlock, throw_bind, ite_error_eq_ok, bind_eq_ok, pure_eq_ok] at h
  obtain ⟨hroom, ⟨filled, hashes, free⟩, hfill, heq⟩ := h
  dsimp only at heq
  cases heq
  obtain ⟨start, hstart⟩ : ∃ start, o.dirBlockSize = start + 8 * es.length + 8 :=
    ⟨o.dirBlockSize - (8 + 8 * es.length), by omega⟩
  have hstartEq : o.dirBlockSize - (8 + 8 * es.length) = start := by omega
  rw [hstartEq] at hfill ⊢
  obtain ⟨hsize, hmagic, hfilled⟩ := fillRegion_spec ho hfill (by omega) (by omega) (by omega)
  rw [ImageOptions.namedBlock_eq (Nat.two_pow_pos _)] at hfilled
  rw [hblank] at hsize
  rw [hmark] at hmagic
  have hlength : (hashNumbers (sortHashes hashes)).length = 2 * es.length := by
    rw [length_hashNumbers, length_sortHashes, List.Forall₂.length_eq hfilled.points]
  obtain ⟨hsize', hsame, hcount, hstale⟩ :=
    writeFields_tail hsize hstart hlength (by omega) rfl
  have hheader : beNat (writeFields filled _) 0 4 = beNat filled 0 4 :=
    beNat_congr fun i hi => hsame _ (by
      have : 4 ≤ dataHeaderLength o.isV5 := by cases o.isV5 <;> decide
      omega)
  have hkept := hfilled.congr fun i _ hi => hsame i hi
  generalize writeFields filled _ = b at hsize' hcount hstale hheader hkept ⊢
  have hw : b.size < wordLimit := ho.lt_wordLimit hsize'
  rw [← hsize'] at hcount hstale
  have hbefore : dataHeaderLength o.isV5 ≤ start := by omega
  obtain ⟨tail, hdecode, hoffset⟩ :=
    BlockTail.decode_eq (by omega) (hsize'.trans hstart) hbefore hcount hstale
  refine ⟨hsize', DataHeader.decode_eq hw (by omega) (hheader.trans hmagic), tail, hashes, hdecode,
    ?_, ?_⟩
  · rw [hoffset]
    omega
  · rwa [hoffset]

theorem singleBlock_spec {o : ImageOptions} (ho : o.Accepted) {owner : Nat}
    {es : List EntryDraft} {b : ByteArray} (h : singleBlock o owner es = .ok b)
    (hes : ∀ e ∈ es, e.Storable) :
    b.size = o.dirBlockSize ∧ DataHeader.decode b = .ok ⟨.single, o.isV5⟩ ∧
      ∃ tail, BlockTail.decode b (dataHeaderLength o.isV5) = .ok tail ∧
        (walkSlots b (dataHeaderLength o.isV5) tail.indexOffset o.ftype).entries =
          es.map (·.stored o.ftype) ∧
        (walkSlots b (dataHeaderLength o.isV5) tail.indexOffset o.ftype).stoppedBy = none := by
  obtain ⟨hsize, hheader, tail, hashes, hdecode, hend, hfilled⟩ := singleBlock_filled ho h
  exact ⟨hsize, hheader, tail, hdecode,
    hfilled.walkSlots_eq (ho.lt_wordLimit hsize) hend hes⟩

/-! ## The data blocks of a large directory -/

/-- A data block of a leaf or node directory. -/
structure IndexedBlock (o : ImageOptions) (b : ByteArray) : Prop where
  size : b.size = o.dirBlockSize
  header : DataHeader.decode b = .ok ⟨.indexed, o.isV5⟩

/-- `h` points at `e` in one of the data blocks. -/
def PointsInto (o : ImageOptions) (blocks : PlacedBlocks) (h : HashEntry) (e : EntryDraft) :
    Prop :=
  ∃ db block, (db * o.blocksPerDirBlock, block) ∈ blocks ∧
    PointsAt o db block o.dirBlockSize h e

section

variable {o : ImageOptions}

theorem PointsInto.mono {blocks blocks' : PlacedBlocks} {h : HashEntry} {e : EntryDraft}
    (hp : PointsInto o blocks h e) (hsub : ∀ x ∈ blocks, x ∈ blocks') :
    PointsInto o blocks' h e := by
  obtain ⟨db, block, hin, hpoint⟩ := hp
  exact ⟨db, block, hsub _ hin, hpoint⟩

theorem PointsAt.inData {db : Nat} {b : ByteArray} {stop : Nat} {h : HashEntry} {e : EntryDraft}
    (hp : PointsAt o db b stop h e) : db * o.blocksPerDirBlock < 2 ^ 23 := by
  obtain ⟨off, haddress, -⟩ := hp.place
  have hlt := h.address.toNat_lt
  rw [o.dirBlockSize_eq, ← Nat.mul_assoc, imageBlockSize] at haddress
  omega

theorem length_fillBlocks {owner : Nat} : ∀ {chunks : List (List EntryDraft)} {db : Nat}
    {region : DataRegion}, fillBlocks o owner db chunks = .ok region →
      region.blocks.length = chunks.length
  | [], _, _, h => by
      cases h
      rfl
  | chunk :: chunks, db, region, h => by
      simp only [fillBlocks, bind_eq_ok, pure_eq_ok] at h
      obtain ⟨filled, -, rest, hrest, heq⟩ := h
      cases heq
      rw [List.length_cons, length_fillBlocks hrest, List.length_cons]

theorem fillBlocks_spec (ho : o.Accepted) {owner : Nat} : ∀ {chunks : List (List EntryDraft)}
    {db : Nat} {region : DataRegion}, fillBlocks o owner db chunks = .ok region →
      (∀ chunk ∈ chunks, chunk ≠ []) → db ≤ 2 ^ 23 →
      region.blocks.map Prod.fst =
          (List.range' db chunks.length).map (· * o.blocksPerDirBlock) ∧
        region.free.length = chunks.length ∧
        (∀ x ∈ region.blocks, IndexedBlock o x.2 ∧ x.1 < 2 ^ 23) ∧
        List.Forall₂ (PointsInto o region.blocks) region.hashes chunks.flatten
  | [], db, region, h, _, _ => by
      cases h
      exact ⟨rfl, rfl, by simp, .nil⟩
  | chunk :: chunks, db, region, h, hne, hdb => by
      have hbounds := ho.dirBlockSize_bounds
      obtain ⟨hblank, hmark⟩ := ImageOptions.dataBlock_spec ho owner .indexed
      have hheader : dataHeaderLength o.isV5 ≤ o.dirBlockSize := by
        have : dataHeaderLength o.isV5 ≤ 64 := by cases o.isV5 <;> decide
        omega
      simp only [fillBlocks, bind_eq_ok, pure_eq_ok] at h
      obtain ⟨⟨block, hashes, free⟩, hfill, rest, hrest, heq⟩ := h
      dsimp only at heq
      cases heq
      obtain ⟨hsize, hmagic, hfilled⟩ := fillRegion_spec ho hfill hheader hbounds.2.2
        (Nat.le_of_eq hblank.symm)
      rw [ho.namedBlock_eq hdb] at hfilled
      have hplace : db * o.blocksPerDirBlock < 2 ^ 23 := by
        have hchunk := hne chunk List.mem_cons_self
        have hfirst := hfilled.points
        cases hfirst with
        | nil => exact absurd rfl hchunk
        | cons hpoint _ => exact hpoint.inData
      have hnext : db < 2 ^ 23 :=
        Nat.lt_of_le_of_lt (Nat.le_mul_of_pos_right _ o.blocksPerDirBlock_pos) hplace
      obtain ⟨hplaces, hfree, hblocks, hpoints⟩ := fillBlocks_spec ho hrest
        (fun c hc => hne c (List.mem_cons_of_mem _ hc)) hnext
      rw [hblank] at hsize
      have hw : block.size < wordLimit := ho.lt_wordLimit hsize
      refine ⟨?_, ?_, ?_, ?_⟩
      · rw [List.map_cons, hplaces, List.length_cons, List.range'_succ, List.map_cons]
      · rw [List.length_cons, hfree, List.length_cons]
      · intro x hx
        rcases List.mem_cons.mp hx with rfl | hx
        · exact ⟨⟨hsize, DataHeader.decode_eq hw (by rwa [hsize]) (hmagic.trans hmark)⟩, hplace⟩
        · exact hblocks x hx
      · rw [List.flatten_cons]
        refine List.rel_append ?_ ?_
        · exact hfilled.points.imp fun _ _ hp => ⟨db, block, List.mem_cons_self, hp⟩
        · exact hpoints.imp fun _ _ hp => hp.mono fun x hx => List.mem_cons_of_mem _ hx

/-- The data blocks hold the entries, and the hash entries point at them in the order of their
hashes. -/
structure DataRegion.Holds (region : DataRegion) (o : ImageOptions) (es : List EntryDraft) :
    Prop where
  places : region.blocks.map Prod.fst =
    (List.range region.blocks.length).map (· * o.blocksPerDirBlock)
  free : region.free.length = region.blocks.length
  block : ∀ x ∈ region.blocks, IndexedBlock o x.2 ∧ x.1 < 2 ^ 23
  sorted : region.hashes.Pairwise fun a b => a.hash ≤ b.hash
  points : ∃ stored, stored.Perm es ∧
    List.Forall₂ (PointsInto o region.blocks) region.hashes stored

theorem sorted_sortHashes (hashes : List HashEntry) :
    (sortHashes hashes).Pairwise fun a b => a.hash ≤ b.hash := by
  have hsorted : (sortHashes hashes).Pairwise fun a b => decide (a.hash ≤ b.hash) = true := by
    apply List.pairwise_mergeSort
    · intro a b c hab hbc
      rw [decide_eq_true_eq] at hab hbc ⊢
      exact UInt32.le_trans hab hbc
    · intro a b
      rw [Bool.or_eq_true, decide_eq_true_eq, decide_eq_true_eq]
      exact UInt32.le_total a.hash b.hash
  exact hsorted.imp fun h => of_decide_eq_true h

theorem dataRegion_spec (ho : o.Accepted) {owner perBlock : Nat} {es : List EntryDraft}
    {region : DataRegion} (h : dataRegion o owner es perBlock = .ok region) :
    region.Holds o es := by
  simp only [dataRegion, throw_bind, ite_error_eq_ok, bind_eq_ok, pure_eq_ok] at h
  obtain ⟨hper, filled, hfill, heq⟩ := h
  cases heq
  obtain ⟨hplaces, hfree, hblocks, hpoints⟩ := fillBlocks_spec ho hfill
    (fun c hc => List.length_pos_iff.mp (length_of_mem_chunksOf es c hc).1) (Nat.zero_le _)
  have hlength := length_fillBlocks hfill
  refine ⟨?_, hfree.trans hlength.symm, hblocks, sorted_sortHashes _, ?_⟩
  · rw [hplaces, hlength, List.range_eq_range']
  · rw [flatten_chunksOf (by omega)] at hpoints
    obtain ⟨stored, hstored, hperm⟩ := List.perm_comp_forall₂ (List.mergeSort_perm _ _) hpoints
    exact ⟨stored, hperm, hstored⟩

theorem DataRegion.Holds.length_le {region : DataRegion} {es : List EntryDraft}
    (h : region.Holds o es) : region.blocks.length ≤ 2 ^ 23 := by
  rcases Nat.eq_zero_or_pos region.blocks.length with hzero | hpos
  · omega
  · have hin : (region.blocks.length - 1) * o.blocksPerDirBlock ∈ region.blocks.map Prod.fst := by
      rw [h.places]
      exact List.mem_map_of_mem (List.mem_range.mpr (by omega))
    obtain ⟨x, hx, hplace⟩ := List.mem_map.mp hin
    have hlt := (h.block x hx).2
    have hle := Nat.le_mul_of_pos_right (region.blocks.length - 1) o.blocksPerDirBlock_pos
    omega

end

end XfsVolume
