import XfsVolume.Proofs.Image.InlineForm

/-!
# The inline form read whole and cut short

A read that succeeds on the first bytes of an array has read what stands in the whole array, and
has ended before the cut. So what is decoded from a form that was cut short would be decoded from
the whole form as well, and would end before the cut; but the records of the whole form end with
its last byte. Hence every cut is noticed, by the header or by one of the entries.
-/

namespace XfsVolume

/-! ## Reading the first bytes -/

section

variable {α : Type} {b : ByteArray} {k off len : Nat}

theorem need_of_window (hk : k ≤ b.size) (h : need (window b 0 k) off len = .ok ()) :
    need b off len = .ok () ∧ off + len ≤ k := by
  have hin := le_of_need h
  rw [size_window_of_le (by omega)] at hin
  rw [need] at h ⊢
  by_cases hover : off + len ≥ wordLimit
  · rw [if_pos hover] at h
    cases h
  · rw [if_neg hover, if_neg (by omega)]
    exact ⟨rfl, hin⟩

theorem read_of_window {f : ByteArray → α} {v : α} (hk : k ≤ b.size)
    (hsame : off + len ≤ k → f (window b 0 k) = f b)
    (h : (need (window b 0 k) off len >>= fun _ => pure (f (window b 0 k))) = .ok v) :
    (need b off len >>= fun _ => pure (f b)) = .ok v ∧ off + len ≤ k := by
  obtain ⟨hneed, hvalue⟩ := check_eq_ok.mp h
  obtain ⟨hneed', hin⟩ := need_of_window hk hneed
  rw [hneed', ok_bind, ← hsame hin]
  exact ⟨hvalue, hin⟩

theorem beNat_first (h : off + len ≤ k) : beNat (window b 0 k) off len = beNat b off len := by
  rw [beNat_window h, Nat.zero_add]

theorem readU8_of_window {v : UInt8} (hk : k ≤ b.size) (h : readU8 (window b 0 k) off = .ok v) :
    readU8 b off = .ok v ∧ off + 1 ≤ k := by
  refine read_of_window (f := fun b => byteAt b off) hk (fun hin => ?_) h
  rw [byteAt_window hin, Nat.zero_add]

theorem readU16_of_window {v : UInt16} (hk : k ≤ b.size) (h : readU16 (window b 0 k) off = .ok v) :
    readU16 b off = .ok v ∧ off + 2 ≤ k :=
  read_of_window (f := fun b => UInt16.ofNat (beNat b off 2)) hk
    (fun hin => congrArg _ (beNat_first hin)) h

theorem readU32_of_window {v : UInt32} (hk : k ≤ b.size) (h : readU32 (window b 0 k) off = .ok v) :
    readU32 b off = .ok v ∧ off + 4 ≤ k :=
  read_of_window (f := fun b => UInt32.ofNat (beNat b off 4)) hk
    (fun hin => congrArg _ (beNat_first hin)) h

theorem readU64_of_window {v : UInt64} (hk : k ≤ b.size) (h : readU64 (window b 0 k) off = .ok v) :
    readU64 b off = .ok v ∧ off + 8 ≤ k :=
  read_of_window (f := fun b => UInt64.ofNat (beNat b off 8)) hk
    (fun hin => congrArg _ (beNat_first hin)) h

theorem readBytes_of_window {v : ByteArray} (hk : k ≤ b.size)
    (h : readBytes (window b 0 k) off len = .ok v) :
    readBytes b off len = .ok v ∧ off + len ≤ k := by
  refine read_of_window (f := fun b => window b off len) hk (fun hin => ?_) h
  rw [window_window hin, Nat.zero_add]

theorem readInlineIno_of_window {width ino : Nat} (hwidth : width = 4 ∨ width = 8)
    (hk : k ≤ b.size) (h : readInlineIno (window b 0 k) off width = .ok ino) :
    readInlineIno b off width = .ok ino ∧ off + width ≤ k := by
  rw [readInlineIno] at h ⊢
  rcases hwidth with rfl | rfl
  · rw [if_neg (by decide)] at h ⊢
    obtain ⟨word, hread, rfl⟩ := map_eq_ok.mp h
    obtain ⟨hread', hin⟩ := readU32_of_window hk hread
    rw [hread']
    exact ⟨rfl, hin⟩
  · rw [if_pos rfl] at h ⊢
    obtain ⟨word, hread, rfl⟩ := map_eq_ok.mp h
    obtain ⟨hread', hin⟩ := readU64_of_window hk hread
    rw [hread']
    exact ⟨rfl, hin⟩

/-! ## Headers and entries -/

theorem InlineHeader.decode_of_window {header : InlineHeader} (hk : k ≤ b.size)
    (h : InlineHeader.decode (window b 0 k) = .ok header) :
    InlineHeader.decode b = .ok header ∧ header.length ≤ k := by
  simp only [InlineHeader.decode, bind_eq_ok, pure_eq_ok] at h
  obtain ⟨count, hcount, wide, hwide, parent, hparent, heq⟩ := h
  cases heq
  have hwidth : (if wide > 0 then 8 else 4) = 4 ∨ (if wide > 0 then 8 else 4) = 8 :=
    InlineHeader.inoWidth_cases ⟨count, wide, parent⟩
  obtain ⟨hcount', -⟩ := readU8_of_window hk hcount
  obtain ⟨hwide', -⟩ := readU8_of_window hk hwide
  obtain ⟨hparent', hin⟩ := readInlineIno_of_window hwidth hk hparent
  rw [InlineHeader.decode, hcount', ok_bind, hwide', ok_bind, hparent']
  exact ⟨rfl, hin⟩

theorem InlineEntry.decode_of_window {width : Nat} {ftype : Bool} {entry : InlineEntry}
    (hwidth : width = 4 ∨ width = 8) (hk : k ≤ b.size)
    (h : InlineEntry.decode (window b 0 k) off width ftype = .ok entry) :
    InlineEntry.decode b off width ftype = .ok entry ∧ off + entry.length ≤ k := by
  obtain ⟨nameLength, name, code, ino, offset, hlength, hnonzero, hname, hcode, hino, hoffset,
    rfl⟩ := InlineEntry.decode_eq_ok.mp h
  obtain ⟨hlength', -⟩ := readU8_of_window hk hlength
  obtain ⟨hname', -⟩ := readBytes_of_window hk hname
  obtain ⟨hino', hin⟩ := readInlineIno_of_window hwidth hk hino
  obtain ⟨hoffset', -⟩ := readU16_of_window hk hoffset
  have hcode' : (if ftype then some <$> readU8 b (off + 3 + nameLength.toNat) else .ok none) =
      .ok code := by
    cases ftype with
    | false =>
      rw [if_neg Bool.false_ne_true] at hcode ⊢
      exact hcode
    | true =>
      rw [if_pos rfl] at hcode ⊢
      obtain ⟨byte, hbyte, rfl⟩ := map_eq_ok.mp hcode
      rw [(readU8_of_window hk hbyte).1]
      rfl
  refine ⟨InlineEntry.decode_eq_ok.mpr ⟨nameLength, name, code, ino, offset, hlength', hnonzero,
    hname', hcode', hino', hoffset', rfl⟩, ?_⟩
  dsimp only
  omega

/-- A walk over the first bytes that comes to its end is the walk over all of them, and has read no
further than they go. -/
theorem walkInline_of_window {width : Nat} {ftype : Bool} (hwidth : width = 4 ∨ width = 8)
    (hk : k ≤ b.size) : ∀ {n off : Nat}, off ≤ k →
      (walkInline (window b 0 k) width ftype n off).stoppedBy = none →
      walkInline b width ftype n off = walkInline (window b 0 k) width ftype n off ∧
        off + inlineLength (walkInline (window b 0 k) width ftype n off).entries ≤ k
  | 0, _, hoff, _ => ⟨rfl, hoff⟩
  | n + 1, off, _, h => by
      rw [walkInline] at h ⊢
      rw [walkInline]
      cases hentry : InlineEntry.decode (window b 0 k) off width ftype with
      | error e =>
        rw [hentry] at h
        cases h
      | ok entry =>
        rw [hentry] at h
        obtain ⟨hentry', hin⟩ := InlineEntry.decode_of_window hwidth hk hentry
        obtain ⟨hwalk, hlast⟩ := walkInline_of_window hwidth hk hin h
        rw [hentry']
        dsimp only
        rw [hwalk]
        refine ⟨rfl, ?_⟩
        rw [inlineLength, List.map_cons, List.sum_cons, ← Nat.add_assoc]
        exact hlast

end

/-! ## The codec -/

/-- **The inline form is read back exactly, and never in part.** Whatever a directory holds, if its
inline form is made, the header gives the parent and the number of entries, and a walk of that many
entries gives the name, the inode number and the recorded type of each of them in order, and ends
with the last byte of the form. Numbers have eight bytes just where one of them, the parent's or an
entry's, does not fit four. Where any bytes are cut off at the end, the header cannot be decoded or
the walk is stopped by an error. -/
theorem encodeInline_roundTrip {o : ImageOptions} {parent : Nat} {es : List EntryDraft}
    {stored : List UInt8} (hparent : parent < UInt64.size) (hes : ∀ e ∈ es, e.FitsInline)
    (h : encodeInline o parent es = .ok stored) :
    (∃ header entries, InlineHeader.decode stored.toByteArray = .ok header ∧
      header.count.toNat = es.length ∧ header.parent = parent ∧
      (header.inoWidth = 8 ↔ 2 ^ 32 - 1 < parent ∨ ∃ e ∈ es, 2 ^ 32 - 1 < e.ino) ∧
      (header.inoWidth = 4 ∨ header.inoWidth = 8) ∧
      walkInline stored.toByteArray header.inoWidth o.ftype header.count.toNat header.length =
        ⟨entries, none⟩ ∧
      entries.map (fun e => (e.name, e.ino, e.ftype)) =
        es.map (fun e => (e.name, e.ino, if o.ftype then some e.ftype else none)) ∧
      header.length + inlineLength entries = stored.length) ∧
    ∀ k < stored.length, ∀ header,
      InlineHeader.decode (window stored.toByteArray 0 k) = .ok header →
        (walkInline (window stored.toByteArray 0 k) header.inoWidth o.ftype header.count.toNat
          header.length).stoppedBy ≠ none := by
  obtain ⟨hheader, hcount, hwalk, hlength⟩ := encodeInline_spec h hparent hes
  refine ⟨⟨_, _, hheader, hcount, rfl, ?_, InlineHeader.inoWidth_cases _, hcount.symm ▸ hwalk,
    map_inlineRecords (fun _ _ => rfl) _ _, hlength⟩, ?_⟩
  · simp only [inoWidth_eq_eight, List.mem_cons, List.mem_map, exists_eq_or_imp,
      exists_exists_and_eq_and]
    exact Iff.rfl
  · intro k hk header hcut hstop
    have hwhole : k ≤ stored.toByteArray.size := by
      rw [List.size_toByteArray]
      exact Nat.le_of_lt hk
    obtain ⟨hheader', hin⟩ := InlineHeader.decode_of_window hwhole hcut
    cases hheader.symm.trans hheader'
    obtain ⟨hsame, hend⟩ :=
      walkInline_of_window (InlineHeader.inoWidth_cases _) hwhole hin hstop
    rw [← hsame, hcount, hwalk] at hend
    exact absurd (hlength ▸ hend) (Nat.not_le.mpr hk)

/-- Two entries, one of which has a number that does not fit four bytes. -/
def wideEntries : List EntryDraft := [⟨[0x61], 2 ^ 40, 2⟩, ⟨[0x62, 0x63], 5, 1⟩]

/-- Both entries have eight bytes for their numbers; without its last byte the form is refused. -/
theorem encodeInline_roundTrip_wide : ∃ stored header entries,
    encodeInline {} 64 wideEntries = .ok stored ∧ stored.length = 37 ∧
      InlineHeader.decode stored.toByteArray = .ok header ∧ header.inoWidth = 8 ∧
      walkInline stored.toByteArray header.inoWidth true header.count.toNat header.length =
        ⟨entries, none⟩ ∧
      entries.map (fun e => (e.name, e.ino, e.ftype)) =
        [([0x61], 2 ^ 40, some 2), ([0x62, 0x63], 5, some 1)] ∧
      ∀ header, InlineHeader.decode (window stored.toByteArray 0 36) = .ok header →
        (walkInline (window stored.toByteArray 0 36) header.inoWidth true header.count.toNat
          header.length).stoppedBy ≠ none := by
  have hes : ∀ e ∈ wideEntries, e.FitsInline := by
    rw [wideEntries, List.forall_mem_cons, List.forall_mem_singleton]
    exact ⟨⟨by decide, by decide, by decide⟩, ⟨by decide, by decide, by decide⟩⟩
  have hlength : List.length <$> encodeInline {} 64 wideEntries = .ok 37 := by decide +kernel
  obtain ⟨stored, hstored, hsize⟩ := map_eq_ok.mp hlength
  obtain ⟨⟨header, entries, hheader, -, -, hwide, -, hwalk, hentries, -⟩, hcut⟩ :=
    encodeInline_roundTrip (by decide) hes hstored
  have hneeded : ∃ e ∈ wideEntries, 2 ^ 32 - 1 < e.ino := ⟨_, List.mem_cons_self, by decide⟩
  exact ⟨stored, header, entries, hstored, hsize, hheader, hwide.mpr (Or.inr hneeded), hwalk,
    hentries, hcut 36 (by omega)⟩

end XfsVolume
