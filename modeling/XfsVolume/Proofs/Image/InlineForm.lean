import XfsVolume.Directory.Lookup
import XfsVolume.Proofs.Image.DataBlocks

/-!
# Inline directories written and read back

The inline form is a header and the entries one behind the other. Inode numbers have four bytes if
all of them fit, the parent's included, and eight otherwise; the header counts those that do not,
which is how a reader knows. What is read back are the records of what was stored
(`inlineRecords`), which fill the form to its last byte; what is listed are these, behind the
directory itself and its parent.
-/

namespace XfsVolume

def EntryDraft.listed (e : EntryDraft) (ftype : Bool) : DirEntry where
  ino := e.ino
  name := e.name
  kind := kindOfCode (if ftype then some e.ftype else none)

theorem EntryDraft.Storable.toDirEntry_stored {e : EntryDraft} (h : e.Storable) (ftype : Bool) :
    (e.stored ftype).toDirEntry = e.listed ftype := by
  show DirEntry.mk (UInt64.ofNat e.ino).toNat e.name _ = _
  rw [UInt64.toNat_ofNat_of_lt' h.ino]
  rfl

/-- An entry that can be stored inline. There is no marker that an inode number could be taken for,
so any word will do. -/
structure EntryDraft.FitsInline (e : EntryDraft) : Prop where
  named : e.name ≠ []
  nameLength : e.name.length ≤ maxNameLength
  ino : e.ino < UInt64.size

theorem EntryDraft.Storable.fitsInline {e : EntryDraft} (h : e.Storable) : e.FitsInline :=
  ⟨h.named, h.nameLength, h.ino⟩

/-! ## Records -/

/-- The record of an entry: inode numbers have `width` bytes, and `offset` is kept with it. -/
def EntryDraft.inlineRecord (e : EntryDraft) (ftype : Bool) (width offset : Nat) : InlineEntry where
  name := e.name
  offset := UInt16.ofNat offset
  ftype := if ftype then some e.ftype else none
  ino := e.ino
  length := 3 + e.name.length + ftype.toNat + width

def inlineRecords (ftype : Bool) (width : Nat) : (offset : Nat) → List EntryDraft → List InlineEntry
  | _, [] => []
  | offset, e :: rest => e.inlineRecord ftype width offset ::
      inlineRecords ftype width (offset + entryLength e.name.length ftype) rest

theorem map_inlineRecords {α : Type} {ftype : Bool} {width : Nat} {f : InlineEntry → α}
    {g : EntryDraft → α} (h : ∀ e offset, f (e.inlineRecord ftype width offset) = g e) :
    ∀ (offset : Nat) (es : List EntryDraft), (inlineRecords ftype width offset es).map f = es.map g
  | _, [] => rfl
  | offset, e :: rest => by
      rw [inlineRecords, List.map_cons, List.map_cons, h, map_inlineRecords h _ rest]

def inlineLength (entries : List InlineEntry) : Nat := (entries.map (·.length)).sum

/-! ## One entry -/

/-- Stored form of an entry of an inline directory. -/
def inlineBytes (ftype : Bool) (width offset : Nat) (e : EntryDraft) : List UInt8 :=
  UInt8.ofNat e.name.length :: beBytes 2 offset ++ e.name ++
    (if ftype then [e.ftype] else []) ++ beBytes width e.ino

theorem length_inlineBytes (ftype : Bool) (width offset : Nat) (e : EntryDraft) :
    (inlineBytes ftype width offset e).length = 3 + e.name.length + ftype.toNat + width := by
  cases ftype with
  | false =>
    simp [inlineBytes]
    omega
  | true =>
    simp [inlineBytes]
    omega

theorem encodeInlineEntries_cons {ftype : Bool} {width offset : Nat} {e : EntryDraft}
    {rest : List EntryDraft} {stored : List UInt8}
    (h : encodeInlineEntries ftype width offset (e :: rest) = .ok stored) :
    ∃ tail, encodeInlineEntries ftype width (offset + entryLength e.name.length ftype) rest =
        .ok tail ∧ stored = inlineBytes ftype width offset e ++ tail := by
  simp only [encodeInlineEntries, bind_eq_ok, pure_eq_ok] at h
  obtain ⟨place, hplace, tail, htail, heq⟩ := h
  obtain ⟨-, rfl⟩ := fitting_eq_ok.mp hplace
  cases heq
  exact ⟨tail, htail, rfl⟩

theorem length_encodeInlineEntries {ftype : Bool} {width : Nat} : ∀ {es : List EntryDraft}
    {offset : Nat} {stored : List UInt8}, encodeInlineEntries ftype width offset es = .ok stored →
      inlineLength (inlineRecords ftype width offset es) = stored.length
  | [], _, _, h => by
      cases h
      rfl
  | e :: rest, offset, stored, h => by
      obtain ⟨tail, htail, rfl⟩ := encodeInlineEntries_cons h
      rw [List.length_append, length_inlineBytes, ← length_encodeInlineEntries htail]
      rfl

theorem inlineLength_le (ftype : Bool) {width : Nat} (hwidth : width = 4 ∨ width = 8) :
    ∀ (offset : Nat) {es : List EntryDraft}, (∀ e ∈ es, e.FitsInline) →
      inlineLength (inlineRecords ftype width offset es) ≤ es.length * 267
  | _, [], _ => Nat.le_refl _
  | offset, e :: rest, hes => by
      have hlen := (hes e List.mem_cons_self).nameLength
      have hcode := Bool.toNat_le ftype
      have hrest := inlineLength_le ftype hwidth (offset + entryLength e.name.length ftype)
        fun x hx => hes x (List.mem_cons_of_mem _ hx)
      have hfirst : inlineLength (inlineRecords ftype width offset (e :: rest)) =
          3 + e.name.length + ftype.toNat + width + inlineLength (inlineRecords ftype width
            (offset + entryLength e.name.length ftype) rest) := List.sum_cons
      rw [maxNameLength] at hlen
      rw [hfirst, List.length_cons]
      omega

section

variable {b : ByteArray} {width : Nat}

theorem readInlineIno_eq (hw : b.size < wordLimit) (hwidth : width = 4 ∨ width = 8)
    {off ino : Nat} (hfit : ino < 256 ^ width) (hend : off + width ≤ b.size)
    (h : Spells b off (beBytes width ino)) : readInlineIno b off width = .ok ino := by
  have hvalue := h.beNat
  rw [Nat.mod_eq_of_lt hfit] at hvalue
  rcases hwidth with rfl | rfl
  · rw [readInlineIno, if_neg (by decide), readU32_eq hw hend, hvalue, map_ok,
      UInt32.toNat_ofNat_of_lt' hfit]
  · rw [readInlineIno, if_pos rfl, readU64_eq hw hend, hvalue, map_ok,
      UInt64.toNat_ofNat_of_lt' hfit]

theorem spells_inlineBytes {ftype : Bool} {off offset : Nat} {e : EntryDraft}
    (h : Spells b off (inlineBytes ftype width offset e)) :
    byteAt b off = UInt8.ofNat e.name.length ∧ Spells b (off + 1) (beBytes 2 offset) ∧
      Spells b (off + 3) e.name ∧
      (ftype = true → byteAt b (off + 3 + e.name.length) = e.ftype) ∧
      Spells b (off + 3 + e.name.length + ftype.toNat) (beBytes width e.ino) := by
  unfold inlineBytes at h
  simp only [spells_append, spells_cons, List.cons_append, length_beBytes,
    List.length_append] at h
  obtain ⟨hlength, ⟨⟨⟨hoffset, hname⟩, hcode⟩, hino⟩⟩ := h
  have hplace : off + 1 + (2 + e.name.length) = off + 3 + e.name.length := by omega
  rw [hplace] at hcode
  refine ⟨hlength, hoffset, hname, ?_, ?_⟩
  · rintro rfl
    rw [if_pos rfl, spells_cons] at hcode
    exact hcode.1
  · cases ftype with
    | false =>
      have hat : off + 1 + (2 + e.name.length + 0) = off + 3 + e.name.length + 0 := by omega
      rw [if_neg Bool.false_ne_true, List.length_nil, hat] at hino
      exact hino
    | true =>
      have hat : off + 1 + (2 + e.name.length + 1) = off + 3 + e.name.length + 1 := by omega
      rw [if_pos rfl, List.length_singleton, hat] at hino
      exact hino

theorem InlineEntry.decode_eq_ok {fork : ByteArray} {off width : Nat} {ftype : Bool}
    {entry : InlineEntry} : InlineEntry.decode fork off width ftype = .ok entry ↔
      ∃ nameLength name code ino offset, readU8 fork off = .ok nameLength ∧
        nameLength.toNat ≠ 0 ∧ readBytes fork (off + 3) nameLength.toNat = .ok name ∧
        (if ftype then some <$> readU8 fork (off + 3 + nameLength.toNat) else .ok none) =
          .ok code ∧
        readInlineIno fork (off + 3 + nameLength.toNat + ftype.toNat) width = .ok ino ∧
        readU16 fork (off + 1) = .ok offset ∧
        entry = { name := byteList name, offset, ftype := code, ino,
                  length := off + 3 + nameLength.toNat + ftype.toNat + width - off } := by
  cases ftype with
  | false =>
    simp only [decode, throw_bind, bind_eq_ok, ite_error_eq_ok, pure_eq_ok, Bool.false_eq_true,
      if_false, ok_bind]
    constructor
    · rintro ⟨n, hn, hnonzero, name, hname, ino, hino, offset, hoffset, heq⟩
      exact ⟨n, name, none, ino, offset, hn, hnonzero, hname, rfl, hino, hoffset,
        (Except.ok.inj heq).symm⟩
    · rintro ⟨n, name, code, ino, offset, hn, hnonzero, hname, hcode, hino, hoffset, rfl⟩
      cases hcode
      exact ⟨n, hn, hnonzero, name, hname, ino, hino, offset, hoffset, rfl⟩
  | true =>
    simp only [decode, throw_bind, bind_eq_ok, ite_error_eq_ok, pure_eq_ok, if_true]
    constructor
    · rintro ⟨n, hn, hnonzero, name, hname, code, hcode, ino, hino, offset, hoffset, heq⟩
      exact ⟨n, name, code, ino, offset, hn, hnonzero, hname, hcode, hino, hoffset,
        (Except.ok.inj heq).symm⟩
    · rintro ⟨n, name, code, ino, offset, hn, hnonzero, hname, hcode, hino, hoffset, rfl⟩
      exact ⟨n, hn, hnonzero, name, hname, code, hcode, ino, hino, offset, hoffset, rfl⟩

/-- An entry is read back from where it stands. -/
theorem InlineEntry.decode_eq {ftype : Bool} {off offset : Nat} {e : EntryDraft}
    (he : e.FitsInline) (hw : b.size < wordLimit) (hwidth : width = 4 ∨ width = 8)
    (hfit : e.ino < 256 ^ width) (hend : off + (inlineBytes ftype width offset e).length ≤ b.size)
    (h : Spells b off (inlineBytes ftype width offset e)) :
    InlineEntry.decode b off width ftype = .ok (e.inlineRecord ftype width offset) := by
  obtain ⟨hlength, hoffset, hname, hcode, hino⟩ := spells_inlineBytes h
  have hlen := he.nameLength
  rw [maxNameLength] at hlen
  have hnat : (UInt8.ofNat e.name.length).toNat = e.name.length :=
    UInt8.toNat_ofNat_of_lt' (by rw [UInt8.size]; omega)
  have hnonzero : e.name.length ≠ 0 := fun hzero => he.named (List.length_eq_zero_iff.mp hzero)
  rw [length_inlineBytes] at hend
  have hlengthAt := readU8_eq hw (show off + 1 ≤ b.size by omega)
  rw [hlength] at hlengthAt
  have hnameAt := readBytes_eq hw (show off + 3 + e.name.length ≤ b.size by omega)
  have hcodeAt : (if ftype then some <$> readU8 b (off + 3 + e.name.length) else .ok none) =
      .ok (if ftype then some e.ftype else none) := by
    cases ftype with
    | false => rfl
    | true =>
      rw [if_pos rfl, readU8_eq hw (by simp at hend; omega), hcode rfl]
      rfl
  have hinoAt := readInlineIno_eq hw hwidth hfit (by omega) hino
  have hoffsetAt := readU16_of_beNat hw (show off + 1 + 2 ≤ b.size by omega) hoffset.beNat
  refine InlineEntry.decode_eq_ok.mpr ⟨_, window b (off + 3) e.name.length,
    if ftype then some e.ftype else none, e.ino, UInt16.ofNat offset, hlengthAt, ?_⟩
  rw [hnat]
  refine ⟨hnonzero, hnameAt, hcodeAt, hinoAt, hoffsetAt, ?_⟩
  have hlast : off + 3 + e.name.length + ftype.toNat + width - off =
      3 + e.name.length + ftype.toNat + width := by omega
  rw [hname.window (by omega), hlast]
  rfl

theorem walkInline_eq {ftype : Bool} (hw : b.size < wordLimit) (hwidth : width = 4 ∨ width = 8) :
    ∀ {es : List EntryDraft} {offset off : Nat} {stored : List UInt8},
      encodeInlineEntries ftype width offset es = .ok stored →
      (∀ e ∈ es, e.FitsInline ∧ e.ino < 256 ^ width) → off + stored.length ≤ b.size →
      Spells b off stored →
      walkInline b width ftype es.length off = ⟨inlineRecords ftype width offset es, none⟩
  | [], _, _, _, _, _, _, _ => rfl
  | e :: rest, offset, off, stored, h, hes, hend, hspells => by
      obtain ⟨tail, htail, rfl⟩ := encodeInlineEntries_cons h
      rw [List.length_append] at hend
      obtain ⟨hfirst, hrest⟩ := spells_append.mp hspells
      obtain ⟨he, hfit⟩ := hes e List.mem_cons_self
      have hentry := InlineEntry.decode_eq he hw hwidth hfit (by omega) hfirst
      have hlength : (e.inlineRecord ftype width offset).length =
          (inlineBytes ftype width offset e).length := (length_inlineBytes ..).symm
      rw [← hlength] at hrest hend
      have hwalk := walkInline_eq hw hwidth htail
        (fun x hx => hes x (List.mem_cons_of_mem _ hx)) (by omega) hrest
      rw [List.length_cons, walkInline, hentry]
      dsimp only
      rw [hwalk]
      rfl

end

/-! ## The whole directory -/

/-- Inode numbers of an inline directory that need eight bytes, its parent's included. -/
def wideInos (parent : Nat) (es : List EntryDraft) : Nat :=
  ((parent :: es.map EntryDraft.ino).filter isWideIno).length

def inlineHeader (parent : Nat) (es : List EntryDraft) : InlineHeader where
  count := UInt8.ofNat es.length
  wideCount := UInt8.ofNat (min (wideInos parent es) 255)
  parent := parent

/-- Offset that the first entry of an inline directory would have in a data block: behind its own
entry and that of its parent. -/
def ImageOptions.firstOffset (o : ImageOptions) : Nat :=
  dataHeaderLength o.isV5 + entryLength 1 o.ftype + entryLength 2 o.ftype

theorem InlineHeader.inoWidth_cases (h : InlineHeader) : h.inoWidth = 4 ∨ h.inoWidth = 8 := by
  rw [inoWidth]
  split
  · exact Or.inr rfl
  · exact Or.inl rfl

section

variable {parent : Nat} {es : List EntryDraft}

theorem inlineHeader_inoWidth :
    (inlineHeader parent es).inoWidth = if wideInos parent es > 0 then 8 else 4 := by
  have hwide : (UInt8.ofNat (min (wideInos parent es) 255)).toNat = min (wideInos parent es) 255 :=
    UInt8.toNat_ofNat_of_lt' (by rw [UInt8.size]; omega)
  have hmarked : UInt8.ofNat (min (wideInos parent es) 255) > 0 ↔ wideInos parent es > 0 := by
    rw [gt_iff_lt, UInt8.lt_iff_toNat_lt, hwide]
    show 0 < _ ↔ _
    omega
  rw [InlineHeader.inoWidth]
  simp only [inlineHeader, hmarked]

theorem inoWidth_eq_eight : (inlineHeader parent es).inoWidth = 8 ↔
    ∃ ino ∈ parent :: es.map EntryDraft.ino, UInt32.size ≤ ino := by
  have hwide : wideInos parent es > 0 ↔
      ∃ ino ∈ parent :: es.map EntryDraft.ino, UInt32.size ≤ ino := by
    simp only [wideInos, gt_iff_lt, List.length_pos_iff_exists_mem, List.mem_filter, isWideIno,
      decide_eq_true_eq, ge_iff_le]
  rw [inlineHeader_inoWidth, ← hwide]
  constructor
  · intro h
    by_contra hnone
    rw [if_neg hnone] at h
    cases h
  · intro h
    rw [if_pos h]

theorem lt_inoWidth {ino : Nat} (hin : ino ∈ parent :: es.map EntryDraft.ino)
    (hlt : ino < UInt64.size) : ino < 256 ^ (inlineHeader parent es).inoWidth := by
  rcases (inlineHeader parent es).inoWidth_cases with hnarrow | hwide
  · have hfit : ¬ UInt32.size ≤ ino := fun hle => by
      have hwide := inoWidth_eq_eight.mpr ⟨ino, hin, hle⟩
      omega
    rw [hnarrow]
    exact Nat.not_le.mp hfit
  · rw [hwide]
    exact hlt

theorem encodeInline_eq_ok {o : ImageOptions} {stored : List UInt8}
    (h : encodeInline o parent es = .ok stored) :
    es.length ≤ 255 ∧ stored.length ≤ o.literalLength ∧
      ∃ entries, encodeInlineEntries o.ftype (inlineHeader parent es).inoWidth o.firstOffset es =
          .ok entries ∧
        stored = (inlineHeader parent es).count :: (inlineHeader parent es).wideCount ::
          beBytes (inlineHeader parent es).inoWidth parent ++ entries := by
  simp only [encodeInline, throw_bind, ite_error_eq_ok, bind_eq_ok, pure_eq_ok] at h
  obtain ⟨hcount, entries, hentries, hlength, heq⟩ := h
  cases heq
  rw [inlineHeader_inoWidth]
  exact ⟨Nat.not_lt.mp hcount, Nat.not_lt.mp hlength, entries, hentries, rfl⟩

/-- A header is read back from where it stands. -/
theorem InlineHeader.decode_eq {b : ByteArray} {header : InlineHeader} (hw : b.size < wordLimit)
    (hfit : header.parent < 256 ^ header.inoWidth) (hend : header.length ≤ b.size)
    (h : Spells b 0 (header.count :: header.wideCount ::
      beBytes header.inoWidth header.parent)) : InlineHeader.decode b = .ok header := by
  rw [spells_cons, spells_cons] at h
  obtain ⟨hcount, hwide, hparent⟩ := h
  rw [InlineHeader.length] at hend
  have hino := readInlineIno_eq hw header.inoWidth_cases hfit hend hparent
  rw [InlineHeader.inoWidth] at hino
  rw [InlineHeader.decode, readU8_eq hw (by omega), ok_bind, readU8_eq hw (by omega), ok_bind,
    hcount, hwide, hino]
  rfl

/-- What is read back from the inline form: its header, and the records of its entries up to its
last byte. -/
theorem encodeInline_spec {o : ImageOptions} {stored : List UInt8}
    (h : encodeInline o parent es = .ok stored) (hparent : parent < UInt64.size)
    (hes : ∀ e ∈ es, e.FitsInline) :
    InlineHeader.decode stored.toByteArray = .ok (inlineHeader parent es) ∧
      (inlineHeader parent es).count.toNat = es.length ∧
      walkInline stored.toByteArray (inlineHeader parent es).inoWidth o.ftype es.length
          (inlineHeader parent es).length =
        ⟨inlineRecords o.ftype (inlineHeader parent es).inoWidth o.firstOffset es, none⟩ ∧
      (inlineHeader parent es).length +
        inlineLength (inlineRecords o.ftype (inlineHeader parent es).inoWidth o.firstOffset es) =
          stored.length := by
  obtain ⟨hcount, -, entries, hentries, hstored⟩ := encodeInline_eq_ok h
  have hwidth := (inlineHeader parent es).inoWidth_cases
  have hlength := length_encodeInlineEntries hentries
  have hbound := inlineLength_le o.ftype hwidth o.firstOffset hes
  have hsize : stored.length = (inlineHeader parent es).length + entries.length := by
    rw [hstored, InlineHeader.length]
    simp only [List.cons_append, List.length_cons, List.length_append, length_beBytes]
    omega
  have harea : stored.toByteArray.size = (inlineHeader parent es).length + entries.length := by
    rw [List.size_toByteArray, hsize]
  have hw : stored.toByteArray.size < wordLimit := by
    rw [harea, InlineHeader.length, wordLimit, UInt64.size]
    omega
  have hspells := spells_toByteArray stored
  generalize stored.toByteArray = area at harea hw hspells ⊢
  rw [hstored, spells_append] at hspells
  obtain ⟨hheader, hrest⟩ := hspells
  have hplace : 0 + ((inlineHeader parent es).count :: (inlineHeader parent es).wideCount ::
      beBytes (inlineHeader parent es).inoWidth parent).length = (inlineHeader parent es).length := by
    rw [List.length_cons, List.length_cons, length_beBytes, InlineHeader.length]
    omega
  rw [hplace] at hrest
  refine ⟨?_, UInt8.toNat_ofNat_of_lt' (by rw [UInt8.size]; omega), ?_, by omega⟩
  · exact InlineHeader.decode_eq hw (lt_inoWidth List.mem_cons_self hparent) (by omega) hheader
  · refine walkInline_eq hw hwidth hentries (fun e he => ⟨hes e he, ?_⟩) (by omega) hrest
    exact lt_inoWidth (List.mem_cons_of_mem _ (List.mem_map_of_mem he)) (hes e he).ino

end

namespace Medium

variable {m : Medium} {dir : Inode} {o : ImageOptions}

theorem inlineListing_eq (hm : o.Measures m.geometry) {parent : Nat} {es : List EntryDraft}
    {stored : List UInt8} (h : encodeInline o parent es = .ok stored)
    (hparent : parent < UInt64.size) (hes : ∀ e ∈ es, e.FitsInline)
    (hsize : dir.size.toNat = stored.length)
    (hfork : dir.fork = overwrite (zeros o.literalLength) 0 stored.toByteArray) :
    m.inlineListing dir = .ok ({ ino := dir.ino.toNat, name := dotName, kind := .directory } ::
      { ino := parent, name := dotDotName, kind := .directory } ::
      es.map (·.listed o.ftype)) := by
  obtain ⟨-, hroom, -⟩ := encodeInline_eq_ok h
  obtain ⟨hheader, hcount, hwalk, -⟩ := encodeInline_spec h hparent hes
  have hin : 0 + stored.toByteArray.size ≤ (zeros o.literalLength).size := by
    rw [size_zeros, List.size_toByteArray, Nat.zero_add]
    exact hroom
  have harea : window dir.fork 0 dir.size.toNat = stored.toByteArray := by
    rw [hfork, hsize, ← List.size_toByteArray]
    exact window_overwrite_self hin
  have hlong : ¬ dir.size.toNat > dir.fork.size := by
    rw [hfork, size_overwrite hin, size_zeros, hsize]
    exact Nat.not_lt.mpr hroom
  have hentries : m.inlineEntries dir = .ok (inlineHeader parent es,
      inlineRecords o.ftype (inlineHeader parent es).inoWidth o.firstOffset es) := by
    unfold inlineEntries
    dsimp only
    rw [if_neg hlong, harea, hheader, mapError_ok, ok_bind, hm.hasFtype, hcount, hwalk]
    rfl
  have hlisted : (inlineRecords o.ftype (inlineHeader parent es).inoWidth o.firstOffset es).map
      InlineEntry.toDirEntry = es.map (·.listed o.ftype) := map_inlineRecords (fun _ _ => rfl) _ _
  rw [inlineListing, hentries, ok_bind, ← hlisted]
  rfl

end Medium

end XfsVolume
