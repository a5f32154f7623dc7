import XfsVolume.Proofs.Image.DataBlocks

/-!
# Index blocks written and read back

Leaves and nodes of the index start with the same links and mark, then the number of their records
and a second number, and the records fill the block from its header on. What is read from a block
that was written is its links, its kind and its records; the leaf of a leaf directory keeps its room
apart from the table of free lengths at its end.
-/

namespace XfsVolume

theorem indexHeader_bounds (crc : Bool) : 12 ≤ indexCountOffset crc ∧
    indexCountOffset crc + 4 ≤ indexHeaderLength crc ∧ indexHeaderLength crc ≤ 64 := by
  cases crc with
  | false => decide
  | true => decide

/-! ## Records -/

theorem HashEntry.decodeRun_of_carries {b : ByteArray} (hw : b.size < wordLimit) :
    ∀ {hashes : List HashEntry} {off : Nat}, off + 8 * hashes.length ≤ b.size →
      Carries b 4 off (hashNumbers hashes) → decodeRun b off hashes.length = .ok hashes
  | [], _, _, _ => rfl
  | h :: hs, off, hroom, hc => by
      rw [List.length_cons] at hroom
      obtain ⟨hhash, haddress, hrest⟩ := hc
      have hroomRest : off + 8 + 8 * hs.length ≤ b.size := by omega
      have ih := decodeRun_of_carries hw hroomRest hrest
      rw [List.length_cons, decodeRun, readU32_eq hw (by omega), ok_bind, readU32_eq hw (by omega),
        ok_bind, hhash, haddress, hashEntryLength, ih, ok_bind, UInt32.ofNat_toNat,
        UInt32.ofNat_toNat]
      rfl

theorem hashNumbers_lt {hashes : List HashEntry} : ∀ v ∈ hashNumbers hashes, v < 256 ^ 4 := by
  intro v hv
  obtain ⟨h, -, hv⟩ := List.mem_flatMap.mp hv
  rcases List.mem_cons.mp hv with rfl | hv
  · exact h.hash.toNat_lt
  · rw [List.mem_singleton.mp hv]
    exact h.address.toNat_lt

def IndexChild.entry (c : IndexChild) : NodeEntry where
  hash := UInt32.ofNat c.hash
  child := UInt32.ofNat c.fileBlock

def childNumbers (children : List IndexChild) : List Nat :=
  children.flatMap fun c => [c.hash, c.fileBlock]

theorem length_childNumbers (children : List IndexChild) :
    (childNumbers children).length = 2 * children.length := by
  induction children with
  | nil => rfl
  | cons c cs ih =>
    rw [childNumbers, List.flatMap_cons, List.length_append, ← childNumbers, ih, List.length_cons]
    simp only [List.length_cons, List.length_nil]
    omega

theorem HashNode.decodeEntries_of_carries {b : ByteArray} (hw : b.size < wordLimit) :
    ∀ {children : List IndexChild} {off : Nat}, off + 8 * children.length ≤ b.size →
      Carries b 4 off (childNumbers children) →
      decodeEntries b off children.length = .ok (children.map IndexChild.entry)
  | [], _, _, _ => rfl
  | c :: cs, off, hroom, hc => by
      rw [List.length_cons] at hroom
      obtain ⟨hhash, hchild, hrest⟩ := hc
      have hroomRest : off + 8 + 8 * cs.length ≤ b.size := by omega
      have ih := decodeEntries_of_carries hw hroomRest hrest
      rw [List.length_cons, decodeEntries, readU32_eq hw (by omega), ok_bind,
        readU32_eq hw (by omega), ok_bind, hhash, hchild, ih]
      rfl

/-! ## Headers -/

section

variable {o : ImageOptions} {owner next prev : Nat} {magic magicCrc : UInt16}
  {counts records : List Field}

theorem laid_indexFields (o : ImageOptions) (owner : Nat) (magic magicCrc : UInt16)
    (next prev : Nat) :
    Field.Laid 0 (indexCountOffset o.isV5) (indexFields o owner magic magicCrc next prev) := by
  rw [indexFields]
  cases o.isV5 with
  | false => simp [Field.Laid, Field.stop, indexCountOffset]
  | true => simp [Field.Laid, Field.stop, indexCountOffset]

def indexBlockFields (o : ImageOptions) (owner : Nat) (magic magicCrc : UInt16) (next prev : Nat)
    (counts records : List Field) : List Field :=
  indexFields o owner magic magicCrc next prev ++ counts ++ records

variable (hcounts : Field.Laid (indexCountOffset o.isV5) (indexHeaderLength o.isV5) counts)
  (hrecords : Field.Laid (indexHeaderLength o.isV5) o.dirBlockSize records)
include hcounts hrecords

theorem laid_indexBlock : Field.Laid 0 o.dirBlockSize
    (indexBlockFields o owner magic magicCrc next prev counts records) :=
  ((laid_indexFields o owner magic magicCrc next prev).append hcounts).append hrecords

variable {b : ByteArray} (hb : b = blockOf o.dirBlockSize
  (indexBlockFields o owner magic magicCrc next prev counts records))
include hb

theorem indexBlock_bounds (ho : o.Accepted) :
    b.size = o.dirBlockSize ∧ b.size < wordLimit ∧ 64 ≤ b.size := by
  have hbounds := ho.dirBlockSize_bounds
  have hsize : b.size = o.dirBlockSize := by
    rw [hb]
    exact (laid_indexBlock hcounts hrecords).size_blockOf
  rw [hsize, wordLimit, UInt64.size]
  exact ⟨rfl, by omega, by omega⟩

theorem beNat_indexBlock {off width v : Nat}
    (hf : ⟨off, width, v⟩ ∈ indexBlockFields o owner magic magicCrc next prev counts records) :
    beNat b off width = v % 256 ^ width := by
  have hlaid : Field.Laid 0 o.dirBlockSize
      (indexBlockFields o owner magic magicCrc next prev counts records) :=
    laid_indexBlock hcounts hrecords
  rw [hb]
  exact XfsVolume.beNat_blockOf (fun f hf => (hlaid.bounds f hf).2) hlaid.pairwise hf

theorem read_indexFields (ho : o.Accepted) :
    indexMagic b = .ok (if o.isV5 then magicCrc else magic) ∧
      readU32 b 0 = .ok (UInt32.ofNat next) ∧ readU32 b 4 = .ok (UInt32.ofNat prev) := by
  obtain ⟨-, hw, hlarge⟩ := indexBlock_bounds hcounts hrecords hb ho
  have hread {off width v : Nat} (hf : ⟨off, width, v⟩ ∈ indexFields o owner magic magicCrc next
      prev) : beNat b off width = v % 256 ^ width :=
    beNat_indexBlock hcounts hrecords hb (List.mem_append_left _ (List.mem_append_left _ hf))
  refine ⟨?_, ?_, ?_⟩
  · rw [indexMagic, readU16_of_beNat hw (by omega) (hread (v := (if o.isV5 then magicCrc
      else magic).toNat) ?_), UInt16.ofNat_toNat]
    cases hv : o.isV5 with
    | false => simp [indexFields, hv]
    | true => simp [indexFields, hv]
  · exact readU32_of_beNat hw (by omega) (hread (v := next) (by simp [indexFields]))
  · exact readU32_of_beNat hw (by omega) (hread (v := prev) (by simp [indexFields]))

theorem readU16_counts (ho : o.Accepted) {off v : Nat} (hf : ⟨off, 2, v⟩ ∈ counts) :
    readU16 b off = .ok (UInt16.ofNat v) := by
  obtain ⟨-, hw, hlarge⟩ := indexBlock_bounds hcounts hrecords hb ho
  have hheader := indexHeader_bounds o.isV5
  have hstop : off + 2 ≤ indexHeaderLength o.isV5 := (hcounts.bounds _ hf).2
  refine readU16_of_beNat hw (by omega) (beNat_indexBlock hcounts hrecords hb ?_)
  exact List.mem_append_left _ (List.mem_append_right _ hf)

theorem readU16_untouched (ho : o.Accepted) {off : Nat} (hlow : indexCountOffset o.isV5 ≤ off)
    (hhigh : off + 2 ≤ indexHeaderLength o.isV5)
    (ha : ∀ f ∈ counts, off + 2 ≤ f.offset ∨ f.stop ≤ off) : readU16 b off = .ok 0 := by
  obtain ⟨-, hw, hlarge⟩ := indexBlock_bounds hcounts hrecords hb ho
  have hheader := indexHeader_bounds o.isV5
  have hlaid : Field.Laid 0 o.dirBlockSize
      (indexBlockFields o owner magic magicCrc next prev counts records) :=
    laid_indexBlock hcounts hrecords
  refine readU16_of_beNat (v := 0) hw (by omega) ?_
  rw [hb, Nat.zero_mod]
  refine beNat_blockOf_of_apart (fun f hf => (hlaid.bounds f hf).2) fun f hf => ?_
  rw [indexBlockFields, List.append_assoc] at hf
  rcases List.mem_append.mp hf with hf | hf
  · have := ((laid_indexFields _ _ _ _ _ _).bounds f hf).2
    omega
  · rcases List.mem_append.mp hf with hf | hf
    · exact ha f hf
    · have := (hrecords.bounds f hf).1
      omega

theorem carries_records {off : Nat} {numbers : List Nat} (hv : ∀ v ∈ numbers, v < 256 ^ 4)
    (hin : ∀ f ∈ fieldRun off 4 numbers, f ∈ records) : Carries b 4 off numbers := by
  have hlaid : Field.Laid 0 o.dirBlockSize
      (indexBlockFields o owner magic magicCrc next prev counts records) :=
    laid_indexBlock hcounts hrecords
  rw [hb]
  exact hlaid.carries (fun f hf => List.mem_append_right _ (hin f hf)) hv

end

/-! ## Leaves -/

/-- What is decoded from a block with the mark of a leaf and a count for which there is room. -/
theorem LeafHeader.decode_eq {b : ByteArray} {kind : LeafKind} {crc : Bool} {next prev : UInt32}
    {count : UInt16} {limit : Nat} (hw : b.size < wordLimit) (hsize : indexHeaderLength crc ≤ b.size)
    (hmagic : indexMagic b = .ok (if crc then kind.magicCrc else kind.magic))
    (hnext : readU32 b 0 = .ok next) (hprev : readU32 b 4 = .ok prev)
    (hcount : readU16 b (indexCountOffset crc) = .ok count)
    (hstale : readU16 b (indexCountOffset crc + 2) = .ok 0)
    (hlimit : LeafHeader.entryLimit b kind = .ok limit)
    (hroom : indexHeaderLength crc + 8 * count.toNat ≤ limit) :
    LeafHeader.decode b = .ok { kind, crc, next, prev, count, stale := 0 } := by
  have hof : LeafHeader.ofMagic? (if crc then kind.magicCrc else kind.magic) =
      some (kind, crc) := by
    cases kind <;> cases crc <;> rfl
  have hfew : ¬ (0 : UInt16) > count := by
    rw [gt_iff_lt, UInt16.not_lt, UInt16.le_iff_toNat_le]
    exact Nat.zero_le _
  rw [LeafHeader.decode, hmagic, ok_bind, hof]
  dsimp only
  rw [need_eq_ok hw (by omega), ok_bind, hcount, ok_bind, hstale, ok_bind, hlimit, ok_bind,
    hashEntryLength, if_neg, hnext, ok_bind, hprev]
  · rfl
  · simp only [Bool.or_eq_true, decide_eq_true_eq, not_or]
    exact ⟨by omega, hfew⟩

section

variable {o : ImageOptions} {owner next prev : Nat} {kind : LeafKind} {hashes : List HashEntry}
  {more : List Field}

theorem laid_leafCount (o : ImageOptions) (n : Nat) :
    Field.Laid (indexCountOffset o.isV5) (indexHeaderLength o.isV5)
      [⟨indexCountOffset o.isV5, 2, n⟩] := by
  have hbounds := indexHeader_bounds o.isV5
  simp only [Field.Laid, Field.stop]
  omega

theorem laid_leafRecords
    (hmore : Field.Laid (indexHeaderLength o.isV5 + 8 * hashes.length) o.dirBlockSize more) :
    Field.Laid (indexHeaderLength o.isV5) o.dirBlockSize
      (fieldRun (indexHeaderLength o.isV5) 4 (hashNumbers hashes) ++ more) := by
  have hrun := Field.laid_fieldRun 4 (hashNumbers hashes) (indexHeaderLength o.isV5)
  rw [length_hashNumbers] at hrun
  exact (hrun.mono (by omega)).append hmore

theorem indexLeafBlock_eq (o : ImageOptions) (owner : Nat) (kind : LeafKind) (next prev : Nat)
    (hashes : List HashEntry) (more : List Field) :
    indexLeafBlock o owner kind next prev hashes more = blockOf o.dirBlockSize
      (indexBlockFields o owner kind.magic kind.magicCrc next prev
        [⟨indexCountOffset o.isV5, 2, hashes.length⟩]
        (fieldRun (indexHeaderLength o.isV5) 4 (hashNumbers hashes) ++ more)) := by
  rw [indexLeafBlock, indexBlockFields, List.append_assoc _ _ more]

def leafHeader (o : ImageOptions) (kind : LeafKind) (next prev count : Nat) : LeafHeader where
  kind
  crc := o.isV5
  next := UInt32.ofNat next
  prev := UInt32.ofNat prev
  count := UInt16.ofNat count
  stale := 0

theorem decode_indexLeafBlock (ho : o.Accepted)
    (hmore : Field.Laid (indexHeaderLength o.isV5 + 8 * hashes.length) o.dirBlockSize more)
    {b : ByteArray} (hb : b = indexLeafBlock o owner kind next prev hashes more) {limit : Nat}
    (hlimit : LeafHeader.entryLimit b kind = .ok limit)
    (hroom : indexHeaderLength o.isV5 + 8 * hashes.length ≤ limit) :
    b.size = o.dirBlockSize ∧
      LeafHeader.decode b = .ok (leafHeader o kind next prev hashes.length) ∧
      (leafHeader o kind next prev hashes.length).entries b = .ok hashes := by
  have hheader := indexHeader_bounds o.isV5
  have hdir := ho.dirBlockSize_bounds
  have hcounts := laid_leafCount o hashes.length
  have hrecords := laid_leafRecords hmore
  have hend := hmore.le
  rw [indexLeafBlock_eq] at hb
  obtain ⟨hmagic, hnext, hprev⟩ := read_indexFields hcounts hrecords hb ho
  obtain ⟨hsize, hw, -⟩ := indexBlock_bounds hcounts hrecords hb ho
  have hcount := readU16_counts hcounts hrecords hb ho List.mem_cons_self
  have hnat : (UInt16.ofNat hashes.length).toNat = hashes.length :=
    UInt16.toNat_ofNat_of_lt' (by rw [UInt16.size]; omega)
  have hstale : readU16 b (indexCountOffset o.isV5 + 2) = .ok 0 := by
    refine readU16_untouched hcounts hrecords hb ho (by omega) (by omega) fun f hf => ?_
    rw [List.mem_singleton.mp hf, Field.stop]
    exact Or.inr (Nat.le_refl _)
  refine ⟨hsize, ?_, ?_⟩
  · exact LeafHeader.decode_eq hw (by omega) hmagic hnext hprev hcount hstale hlimit
      (by rwa [hnat])
  · have hcarries := carries_records hcounts hrecords hb hashNumbers_lt fun f hf =>
      List.mem_append_left _ hf
    show HashEntry.decodeList b (indexHeaderLength o.isV5) (UInt16.ofNat hashes.length).toNat = _
    rw [hnat, HashEntry.decodeList, hashEntryLength, wordLimit, UInt64.size, if_neg (by omega)]
    dsimp only
    rw [need_eq_ok hw (by omega), ok_bind]
    exact HashEntry.decodeRun_of_carries hw (by omega) hcarries

end

/-- A leaf of the chain is read back. -/
theorem decode_chainedLeaf {o : ImageOptions} (ho : o.Accepted) {hashes : List HashEntry}
    (hroom : indexHeaderLength o.isV5 + 8 * hashes.length ≤ o.dirBlockSize)
    (owner next prev : Nat) :
    (indexLeafBlock o owner .chained next prev hashes []).size = o.dirBlockSize ∧
      LeafHeader.decode (indexLeafBlock o owner .chained next prev hashes []) =
        .ok (leafHeader o .chained next prev hashes.length) ∧
      (leafHeader o .chained next prev hashes.length).entries
        (indexLeafBlock o owner .chained next prev hashes []) = .ok hashes := by
  have hmore : Field.Laid (indexHeaderLength o.isV5 + 8 * hashes.length) o.dirBlockSize [] := hroom
  have hsize : (indexLeafBlock o owner .chained next prev hashes []).size = o.dirBlockSize := by
    rw [indexLeafBlock_eq]
    exact (laid_indexBlock (laid_leafCount o _) (laid_leafRecords hmore)).size_blockOf
  exact decode_indexLeafBlock ho hmore rfl rfl (by rw [hsize]; exact hroom)

/-- The leaf of a leaf directory is read back. -/
theorem singleLeaf_spec {o : ImageOptions} (ho : o.Accepted) {owner : Nat} {region : DataRegion}
    {b : ByteArray} (h : singleLeaf o owner region = .ok b) :
    b.size = o.dirBlockSize ∧ ∃ header, LeafHeader.decode b = .ok header ∧
      header.kind = .single ∧ header.entries b = .ok region.hashes := by
  have hdir := ho.dirBlockSize_bounds
  have hheader := indexHeader_bounds o.isV5
  simp only [singleLeaf, throw_bind, ite_error_eq_ok, pure_eq_ok] at h
  obtain ⟨hroom, heq⟩ := h
  cases heq
  obtain ⟨table, htable⟩ : ∃ table, o.dirBlockSize = table + 2 * region.free.length + 4 :=
    ⟨o.dirBlockSize - 4 - 2 * region.free.length, by omega⟩
  have htableEq : o.dirBlockSize - 4 - 2 * region.free.length = table := by omega
  rw [htableEq] at hroom ⊢
  have hrun := Field.laid_fieldRun 2 region.free table
  have hlast : Field.Laid (table + region.free.length * 2) o.dirBlockSize
      [⟨o.dirBlockSize - 4, 4, region.free.length⟩] := by
    simp only [Field.Laid, Field.stop]
    omega
  have hroom : indexHeaderLength o.isV5 + 8 * region.hashes.length ≤ table := Nat.not_lt.mp hroom
  have hmore : Field.Laid (indexHeaderLength o.isV5 + 8 * region.hashes.length) o.dirBlockSize
      (fieldRun table 2 region.free ++ [⟨o.dirBlockSize - 4, 4, region.free.length⟩]) := by
    have hgap : Field.Laid (indexHeaderLength o.isV5 + 8 * region.hashes.length) table [] := hroom
    exact hgap.append (hrun.append hlast)
  have hcounts := laid_leafCount o region.hashes.length
  have hrecords := laid_leafRecords hmore
  generalize hb : indexLeafBlock o owner .single 0 0 region.hashes
    (fieldRun table 2 region.free ++ [⟨o.dirBlockSize - 4, 4, region.free.length⟩]) = b
  have hfields := hb.symm
  rw [indexLeafBlock_eq] at hfields
  obtain ⟨hsize, hw, -⟩ := indexBlock_bounds hcounts hrecords hfields ho
  have hcount : beNat b (b.size - 4) 4 = region.free.length % 256 ^ 4 := by
    rw [hsize]
    exact beNat_indexBlock hcounts hrecords hfields (List.mem_append_right _
      (List.mem_append_right _ (List.mem_append_right _ List.mem_cons_self)))
  have hnat : (UInt32.ofNat region.free.length).toNat = region.free.length :=
    UInt32.toNat_ofNat_of_lt' (by rw [UInt32.size]; omega)
  have hlimit : LeafHeader.entryLimit b .single = .ok table := by
    rw [LeafHeader.entryLimit]
    dsimp only
    rw [if_neg (by omega), readU32_of_beNat hw (by omega) hcount, ok_bind, hnat, if_neg (by omega),
      hsize]
    exact congrArg Except.ok (by omega)
  obtain ⟨-, hdecode, hentries⟩ := decode_indexLeafBlock ho hmore hb.symm hlimit hroom
  exact ⟨hsize, _, hdecode, rfl, hentries⟩

/-! ## Nodes -/

/-- What is decoded from a block with the mark of a node, a count for which there is room and a level
that is no higher than a node's may be. -/
theorem HashNode.decode_eq {b : ByteArray} {crc : Bool} {next prev : UInt32} {count level : UInt16}
    {entries : List NodeEntry} (hw : b.size < wordLimit)
    (hmagic : indexMagic b = .ok (if crc then nodeMagicCrc else nodeMagic))
    (hnext : readU32 b 0 = .ok next) (hprev : readU32 b 4 = .ok prev)
    (hcount : readU16 b (indexCountOffset crc) = .ok count)
    (hlevel : readU16 b (indexCountOffset crc + 2) = .ok level) (hpos : 0 < count.toNat)
    (hroom : indexHeaderLength crc + 8 * count.toNat ≤ b.size)
    (hlow : 0 < level.toNat) (hhigh : level.toNat ≤ maxNodeDepth)
    (hentries : decodeEntries b (indexHeaderLength crc) count.toNat = .ok entries) :
    HashNode.decode b = .ok { crc, next, prev, level := level.toNat, entries } := by
  have hknown : (decide ((if crc then nodeMagicCrc else nodeMagic) ≠ nodeMagic) &&
      decide ((if crc then nodeMagicCrc else nodeMagic) ≠ nodeMagicCrc)) = false := by
    cases crc <;> rfl
  have hcrc : ((if crc then nodeMagicCrc else nodeMagic) == nodeMagicCrc) = crc := by
    cases crc <;> rfl
  rw [HashNode.decode, hmagic, ok_bind, hknown, if_neg Bool.false_ne_true, hcrc]
  dsimp only
  rw [need_eq_ok hw (by omega), ok_bind, hcount, ok_bind, hlevel, ok_bind, if_neg, if_neg,
    hentries, ok_bind, hnext, ok_bind, hprev]
  · rfl
  · rw [Bool.or_eq_true, decide_eq_true_eq, decide_eq_true_eq]
    omega
  · rw [Bool.or_eq_true, decide_eq_true_eq, decide_eq_true_eq]
    omega

def indexNode (o : ImageOptions) (level next prev : Nat) (children : List IndexChild) :
    HashNode where
  crc := o.isV5
  next := UInt32.ofNat next
  prev := UInt32.ofNat prev
  level
  entries := children.map IndexChild.entry

theorem childNumbers_lt {children : List IndexChild}
    (hlt : ∀ c ∈ children, c.hash < 2 ^ 32 ∧ c.fileBlock < 2 ^ 32) :
    ∀ v ∈ childNumbers children, v < 256 ^ 4 := by
  intro v hv
  obtain ⟨c, hc, hv⟩ := List.mem_flatMap.mp hv
  obtain ⟨hhash, hblock⟩ := hlt c hc
  rcases List.mem_cons.mp hv with rfl | hv
  · exact hhash
  · rw [List.mem_singleton.mp hv]
    exact hblock

theorem decode_indexNodeBlock {o : ImageOptions} (ho : o.Accepted) {children : List IndexChild}
    (hroom : indexHeaderLength o.isV5 + 8 * children.length ≤ o.dirBlockSize)
    (hne : children ≠ []) (hlt : ∀ c ∈ children, c.hash < 2 ^ 32 ∧ c.fileBlock < 2 ^ 32)
    {level : Nat} (hpos : 0 < level) (hlevel : level ≤ maxNodeDepth) (owner next prev : Nat)
    {b : ByteArray} (hb : b = indexNodeBlock o owner level next prev children) :
    b.size = o.dirBlockSize ∧ HashNode.decode b = .ok (indexNode o level next prev children) := by
  have hheader := indexHeader_bounds o.isV5
  have hdir := ho.dirBlockSize_bounds
  have hcounts : Field.Laid (indexCountOffset o.isV5) (indexHeaderLength o.isV5)
      [⟨indexCountOffset o.isV5, 2, children.length⟩, ⟨indexCountOffset o.isV5 + 2, 2, level⟩] := by
    simp only [Field.Laid, Field.stop]
    omega
  have hrecords : Field.Laid (indexHeaderLength o.isV5) o.dirBlockSize
      (fieldRun (indexHeaderLength o.isV5) 4 (childNumbers children)) := by
    have hrun := Field.laid_fieldRun 4 (childNumbers children) (indexHeaderLength o.isV5)
    rw [length_childNumbers] at hrun
    exact hrun.mono (by omega)
  have hfields : b = blockOf o.dirBlockSize (indexBlockFields o owner nodeMagic nodeMagicCrc next
      prev _ _) := hb
  obtain ⟨hmagic, hnext, hprev⟩ := read_indexFields hcounts hrecords hfields ho
  obtain ⟨hsize, hw, -⟩ := indexBlock_bounds hcounts hrecords hfields ho
  have hcount := readU16_counts hcounts hrecords hfields ho List.mem_cons_self
  have hlevelAt := readU16_counts hcounts hrecords hfields ho
    (List.mem_cons_of_mem _ List.mem_cons_self)
  have hcountNat : (UInt16.ofNat children.length).toNat = children.length :=
    UInt16.toNat_ofNat_of_lt' (by rw [UInt16.size]; omega)
  have hlevelNat : (UInt16.ofNat level).toNat = level :=
    UInt16.toNat_ofNat_of_lt' (by rw [UInt16.size]; rw [maxNodeDepth] at hlevel; omega)
  have hcarries := carries_records hcounts hrecords hfields (childNumbers_lt hlt) fun f hf => hf
  have hentries := HashNode.decodeEntries_of_carries hw (by omega) hcarries
  have hdecode := HashNode.decode_eq hw hmagic hnext hprev hcount hlevelAt
    (by rw [hcountNat]; exact List.length_pos_iff.mpr hne) (by rw [hcountNat, hsize]; exact hroom)
    (by rwa [hlevelNat]) (by rwa [hlevelNat]) (by rw [hcountNat]; exact hentries)
  rw [hlevelNat] at hdecode
  exact ⟨hsize, hdecode⟩

end XfsVolume
