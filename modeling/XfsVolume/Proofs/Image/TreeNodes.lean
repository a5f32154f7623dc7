import XfsVolume.Image.Tree
import XfsVolume.Proofs.Extent.Packing
import XfsVolume.Proofs.Fields
import XfsVolume.Proofs.Image.Options

/-!
# Tree nodes written and read back

A list of extents that fit their bits is read back from the numbers that a block carries, and so is
a list of links. A node that was written decodes to its records, its level and its links; its
records are given room by the same header length and the same count that the reader computes.
-/

namespace XfsVolume

/-! ## Records of a block -/

def extentNumbers (extents : List Extent) : List Nat :=
  extents.flatMap fun e => [e.toWords.1.toNat, e.toWords.2.toNat]

theorem length_extentNumbers : ∀ extents : List Extent,
    (extentNumbers extents).length = 2 * extents.length
  | [] => rfl
  | e :: es => by
      have ih := length_extentNumbers es
      rw [extentNumbers, List.flatMap_cons, List.length_append, ← extentNumbers, ih,
        List.length_cons]
      simp only [List.length_cons, List.length_nil]
      omega

theorem extentNumbers_lt {extents : List Extent} : ∀ v ∈ extentNumbers extents, v < 256 ^ 8 := by
  intro v hv
  obtain ⟨e, -, hv⟩ := List.mem_flatMap.mp hv
  rcases List.mem_cons.mp hv with rfl | hv
  · exact e.toWords.1.toNat_lt
  · rw [List.mem_singleton.mp hv]
    exact e.toWords.2.toNat_lt

theorem readU64_of_carries {b : ByteArray} {off v : Nat} (hb : b.size < wordLimit)
    (h : off + 8 ≤ b.size) (hv : beNat b off 8 = v) : readU64 b off = .ok (UInt64.ofNat v) := by
  rw [readU64_eq hb h, hv]

theorem Extent.decodeList_of_carries {b : ByteArray} (hb : b.size < wordLimit) :
    ∀ {extents : List Extent} {off : Nat}, (∀ e ∈ extents, e.Fits) →
      off + 16 * extents.length ≤ b.size → Carries b 8 off (extentNumbers extents) →
      decodeList b off extents.length = .ok extents
  | [], _, _, _, _ => rfl
  | e :: es, off, hfit, hroom, hc => by
      rw [List.length_cons] at hroom
      obtain ⟨hhi, hlo, hrest⟩ := hc
      have hroomRest : off + 16 + 16 * es.length ≤ b.size := by omega
      have ih := decodeList_of_carries hb (fun x hx => hfit x (List.mem_cons_of_mem _ hx))
        hroomRest hrest
      rw [List.length_cons, decodeList, decode, readU64_of_carries hb (by omega) hhi, ok_bind,
        readU64_of_carries hb (by omega) hlo, ok_bind, UInt64.ofNat_toNat, UInt64.ofNat_toNat,
        (hfit e List.mem_cons_self).ofWords_toWords]
      show decodeList b (off + 16) es.length >>= _ = _
      rw [ih]
      rfl

theorem decodeLinks_of_carries {b : ByteArray} (hb : b.size < wordLimit) :
    ∀ {links : List TreeLink} {keyOff addressOff : Nat},
      (∀ l ∈ links, l.key < 2 ^ 64 ∧ l.address < 2 ^ 64) →
      keyOff + 8 * links.length ≤ b.size → addressOff + 8 * links.length ≤ b.size →
      Carries b 8 keyOff (links.map TreeLink.key) →
      Carries b 8 addressOff (links.map TreeLink.address) →
      decodeLinks b keyOff addressOff links.length = .ok links
  | [], _, _, _, _, _, _, _ => rfl
  | l :: ls, keyOff, addressOff, hlt, hkeys, haddresses, hk, ha => by
      rw [List.length_cons] at hkeys haddresses
      obtain ⟨hkey, hk⟩ := hk
      obtain ⟨haddress, ha⟩ := ha
      obtain ⟨hkeyLt, haddressLt⟩ := hlt l List.mem_cons_self
      have hkeysRest : keyOff + 8 + 8 * ls.length ≤ b.size := by omega
      have haddressesRest : addressOff + 8 + 8 * ls.length ≤ b.size := by omega
      have ih := decodeLinks_of_carries hb (fun x hx => hlt x (List.mem_cons_of_mem _ hx))
        hkeysRest haddressesRest hk ha
      rw [List.length_cons, decodeLinks, readU64_of_carries hb (by omega) hkey, ok_bind,
        readU64_of_carries hb (by omega) haddress, ok_bind, ih, ok_bind,
        UInt64.toNat_ofNat_of_lt' hkeyLt, UInt64.toNat_ofNat_of_lt' haddressLt]
      rfl

theorem sortedLinks_of_carries {b : ByteArray} (hb : b.size < wordLimit) {links : List TreeLink}
    {keyOff addressOff : Nat} (hlt : ∀ l ∈ links, l.key < 2 ^ 64 ∧ l.address < 2 ^ 64)
    (hkeys : keyOff + 8 * links.length ≤ b.size)
    (haddresses : addressOff + 8 * links.length ≤ b.size)
    (hk : Carries b 8 keyOff (links.map TreeLink.key))
    (ha : Carries b 8 addressOff (links.map TreeLink.address))
    (hincreasing : increasing (links.map TreeLink.key) = true) :
    sortedLinks b keyOff addressOff links.length = .ok links := by
  rw [sortedLinks, decodeLinks_of_carries hb hlt hkeys haddresses hk ha, ok_bind,
    if_pos hincreasing]
  rfl

theorem checkRecordCount_eq_ok {count limit : Nat} (hpos : 0 < count) (hle : count ≤ limit) :
    checkRecordCount count limit = .ok () := by
  rw [checkRecordCount, if_neg]
  simp only [Bool.or_eq_true, decide_eq_true_eq]
  omega

/-- What is decoded from a block with the mark of a node and a count for which there is room. -/
theorem TreeNode.decode_eq {block : ByteArray} {crc : Bool} {header : Nat} {level count : UInt16}
    {left right : UInt64} {body : TreeBody}
    (hheader : header = if crc then nodeHeaderLengthCrc else nodeHeaderLength)
    (hmagic : readU32 block 0 = .ok (if crc then treeMagicCrc else treeMagic))
    (hlevel : readU16 block 4 = .ok level) (hcount : readU16 block 6 = .ok count)
    (hleft : readU64 block 8 = .ok left) (hright : readU64 block 16 = .ok right)
    (hpos : 0 < count.toNat) (hroom : count.toNat ≤ (block.size - header) / 16)
    (hbody : (if level.toNat = 0 then TreeBody.leaf <$> Extent.decodeList block header count.toNat
      else TreeBody.interior <$> sortedLinks block header
        (header + (block.size - header) / 16 * 8) count.toNat) = .ok body) :
    TreeNode.decode block =
      .ok { level := level.toNat, left := left.toNat, right := right.toNat, crc, body } := by
  have hknown : (decide ((if crc then treeMagicCrc else treeMagic) ≠ treeMagic) &&
      decide ((if crc then treeMagicCrc else treeMagic) ≠ treeMagicCrc)) = false := by
    cases crc <;> rfl
  have hcrc : ((if crc then treeMagicCrc else treeMagic) == treeMagicCrc) = crc := by
    cases crc <;> rfl
  have hleaf : (level == 0) = decide (level.toNat = 0) := by
    rw [Bool.eq_iff_iff, beq_iff_eq, decide_eq_true_eq, ← UInt16.toNat_inj]
    rfl
  rw [TreeNode.decode, hmagic, ok_bind, hknown, if_neg Bool.false_ne_true, hlevel, ok_bind,
    hcount, ok_bind, hleft, ok_bind, hright, ok_bind, hcrc, ← hheader]
  dsimp only
  rw [checkRecordCount_eq_ok hpos hroom, ok_bind, hleaf]
  simp only [decide_eq_true_eq]
  by_cases hzero : level.toNat = 0
  · rw [if_pos hzero] at hbody ⊢
    rw [hbody]
    rfl
  · rw [if_neg hzero] at hbody ⊢
    rw [hbody]
    rfl

/-- What is decoded from a fork with a level and a count for which there is room. -/
theorem TreeRoot.decode_eq {fork : ByteArray} {level count : UInt16} {links : List TreeLink}
    (hlevel : readU16 fork 0 = .ok level) (hcount : readU16 fork 2 = .ok count)
    (hinterior : 0 < level.toNat) (hpos : 0 < count.toNat)
    (hroom : count.toNat ≤ (fork.size - 4) / 16)
    (hlinks : sortedLinks fork 4 (4 + (fork.size - 4) / 16 * 8) count.toNat = .ok links) :
    TreeRoot.decode fork = .ok { level := level.toNat, links } := by
  have hnonzero : (level == 0) = false := by
    rw [beq_eq_false_iff_ne, ne_eq, ← UInt16.toNat_inj]
    exact Nat.ne_of_gt hinterior
  rw [TreeRoot.decode, hlevel, ok_bind, hcount, ok_bind, hnonzero, if_neg Bool.false_ne_true,
    checkRecordCount_eq_ok hpos hroom, ok_bind, hlinks]
  rfl

/-! ## Nodes -/

namespace ImageOptions

variable {o : ImageOptions}

theorem nodeHeader_le (o : ImageOptions) : o.nodeHeader + o.nodeRoom * 16 ≤ imageBlockSize ∧
    24 ≤ o.nodeHeader ∧ 251 ≤ o.nodeRoom ∧ o.nodeRoom ≤ 254 := by
  rw [nodeRoom, nodeHeader, nodeHeaderLength, nodeHeaderLengthCrc, imageBlockSize]
  split <;> omega

theorem laid_nodeFields (o : ImageOptions) (owner address level count left right : Nat) :
    Field.Laid 0 o.nodeHeader (o.nodeFields owner address level count left right) := by
  rw [nodeFields, nodeHeader]
  cases o.isV5 <;> simp [Field.Laid, Field.stop, nodeHeaderLength, nodeHeaderLengthCrc]

theorem laid_leafFields {extents : List Extent} (h : extents.length ≤ o.nodeRoom) :
    Field.Laid o.nodeHeader imageBlockSize (o.leafFields extents) := by
  have hroom := o.nodeHeader_le
  have hlen := length_extentNumbers extents
  refine (Field.laid_fieldRun 8 (extentNumbers extents) o.nodeHeader).mono ?_
  omega

theorem laid_interiorFields {links : List TreeLink} (h : links.length ≤ o.nodeRoom) :
    Field.Laid o.nodeHeader imageBlockSize (o.interiorFields links) := by
  have hroom := o.nodeHeader_le
  have hkeys := Field.laid_fieldRun 8 (links.map TreeLink.key) o.nodeHeader
  have haddresses := Field.laid_fieldRun 8 (links.map TreeLink.address)
    (o.nodeHeader + o.nodeRoom * 8)
  rw [List.length_map] at hkeys haddresses
  exact (hkeys.mono (by omega)).append (haddresses.mono (by omega))

def node (o : ImageOptions) (owner address level count left right : Nat) (records : List Field) :
    ByteArray :=
  blockOf imageBlockSize (o.nodeFields owner address level count left right ++ records)

variable {owner address level count left right : Nat} {records : List Field}

theorem laid_node (h : Field.Laid o.nodeHeader imageBlockSize records) :
    Field.Laid 0 imageBlockSize (o.nodeFields owner address level count left right ++ records) :=
  (o.laid_nodeFields owner address level count left right).append h

theorem size_node (h : Field.Laid o.nodeHeader imageBlockSize records) :
    (o.node owner address level count left right records).size = imageBlockSize :=
  (laid_node h).size_blockOf

theorem decode_node (h : Field.Laid o.nodeHeader imageBlockSize records) (hlevel : level < 2 ^ 16)
    (hpos : 0 < count) (hcount : count ≤ o.nodeRoom) (hleft : left < 2 ^ 64)
    (hright : right < 2 ^ 64) {body : TreeBody}
    (hbody : (if level = 0 then TreeBody.leaf <$> Extent.decodeList
        (o.node owner address level count left right records) o.nodeHeader count
      else TreeBody.interior <$> sortedLinks
        (o.node owner address level count left right records) o.nodeHeader
        (o.nodeHeader + o.nodeRoom * 8) count) = .ok body) :
    TreeNode.decode (o.node owner address level count left right records) =
      .ok { level, left, right, crc := o.isV5, body } := by
  have hlaid : Field.Laid 0 imageBlockSize
      (o.nodeFields owner address level count left right ++ records) := laid_node h
  have hsize : (o.node owner address level count left right records).size = imageBlockSize :=
    size_node h
  have hfield {off width v : Nat}
      (hf : ⟨off, width, v⟩ ∈ o.nodeFields owner address level count left right)
      (hv : v < 256 ^ width) :
      beNat (o.node owner address level count left right records) off width = v :=
    hlaid.beNat_blockOf (List.mem_append_left _ hf) hv
  have hroom := o.nodeHeader_le
  generalize o.node owner address level count left right records = block at hbody hsize hfield ⊢
  have hw : block.size < wordLimit := by
    rw [hsize]
    decide
  have hlarge : 24 ≤ block.size := by
    rw [hsize]
    decide
  have hmagic : readU32 block 0 = .ok (if o.isV5 then treeMagicCrc else treeMagic) := by
    rw [readU32_eq hw (by omega), hfield (v := (if o.isV5 then treeMagicCrc else treeMagic).toNat)
      (by simp [nodeFields]) (UInt32.toNat_lt _), UInt32.ofNat_toNat]
  have hlevelAt : readU16 block 4 = .ok (UInt16.ofNat level) := by
    rw [readU16_eq hw (by omega), hfield (v := level) (by simp [nodeFields]) hlevel]
  have hcountAt : readU16 block 6 = .ok (UInt16.ofNat count) := by
    rw [readU16_eq hw (by omega), hfield (v := count) (by simp [nodeFields]) (by omega)]
  have hleftAt : readU64 block 8 = .ok (UInt64.ofNat left) :=
    readU64_of_carries hw (by omega) (hfield (by simp [nodeFields]) hleft)
  have hrightAt : readU64 block 16 = .ok (UInt64.ofNat right) :=
    readU64_of_carries hw (by omega) (hfield (by simp [nodeFields]) hright)
  have hlevelNat : (UInt16.ofNat level).toNat = level := UInt16.toNat_ofNat_of_lt' hlevel
  have hcountNat : (UInt16.ofNat count).toNat = count :=
    UInt16.toNat_ofNat_of_lt' (by rw [UInt16.size]; omega)
  have hlimit : (block.size - o.nodeHeader) / 16 = o.nodeRoom := by rw [hsize, nodeRoom]
  have hheader : o.nodeHeader = if o.isV5 then nodeHeaderLengthCrc else nodeHeaderLength := rfl
  have hdecode := TreeNode.decode_eq hheader hmagic hlevelAt hcountAt hleftAt hrightAt
    (by rwa [hcountNat]) (by rw [hcountNat]; exact hcount.trans_eq hlimit.symm)
    (by rw [hlevelNat, hcountNat]; exact hlimit ▸ hbody)
  rwa [hlevelNat, UInt64.toNat_ofNat_of_lt' hleft, UInt64.toNat_ofNat_of_lt' hright] at hdecode

theorem decode_leaf {extents : List Extent} (hfit : ∀ e ∈ extents, e.Fits) (hne : extents ≠ [])
    (hroom : extents.length ≤ o.nodeRoom) (hleft : left < 2 ^ 64) (hright : right < 2 ^ 64) :
    TreeNode.decode (o.node owner address 0 extents.length left right (o.leafFields extents)) =
      .ok { level := 0, left, right, crc := o.isV5, body := .leaf extents } := by
  have hheader := o.nodeHeader_le
  have hlaid := laid_leafFields hroom
  have hsize : (o.node owner address 0 extents.length left right (o.leafFields extents)).size =
      imageBlockSize := size_node hlaid
  have hcarries : Carries (o.node owner address 0 extents.length left right (o.leafFields extents))
      8 o.nodeHeader (extentNumbers extents) :=
    (laid_node hlaid).carries (fun f hf => List.mem_append_right _ hf) extentNumbers_lt
  apply decode_node hlaid (by decide) (List.length_pos_iff.mpr hne) hroom hleft hright
  rw [if_pos rfl, Extent.decodeList_of_carries (by rw [hsize]; decide) hfit (by omega) hcarries]
  rfl

theorem decode_interior {links : List TreeLink}
    (hlt : ∀ l ∈ links, l.key < 2 ^ 64 ∧ l.address < 2 ^ 64)
    (hincreasing : increasing (links.map TreeLink.key) = true) (hne : links ≠ [])
    (hroom : links.length ≤ o.nodeRoom) (hlevel : level + 1 < 2 ^ 16) (hleft : left < 2 ^ 64)
    (hright : right < 2 ^ 64) :
    TreeNode.decode (o.node owner address (level + 1) links.length left right
        (o.interiorFields links)) =
      .ok { level := level + 1, left, right, crc := o.isV5, body := .interior links } := by
  have hheader := o.nodeHeader_le
  have hlaid := laid_interiorFields hroom
  have hsize : (o.node owner address (level + 1) links.length left right
      (o.interiorFields links)).size = imageBlockSize := size_node hlaid
  apply decode_node hlaid hlevel (List.length_pos_iff.mpr hne) hroom hleft hright
  rw [if_neg (Nat.succ_ne_zero _), sortedLinks_of_carries (by rw [hsize]; decide) hlt (by omega)
    (by omega) _ _ hincreasing]
  · rfl
  · refine (laid_node hlaid).carries (fun f hf => ?_) fun v hv => ?_
    · exact List.mem_append_right _ (List.mem_append_left _ hf)
    · obtain ⟨l, hl, rfl⟩ := List.mem_map.mp hv
      exact (hlt l hl).1
  · refine (laid_node hlaid).carries (fun f hf => ?_) fun v hv => ?_
    · exact List.mem_append_right _ (List.mem_append_right _ hf)
    · obtain ⟨l, hl, rfl⟩ := List.mem_map.mp hv
      exact (hlt l hl).2

/-! ## Roots -/

theorem rootRoom_bounds (ho : o.Accepted) : 4 ≤ o.rootRoom ∧
    4 + o.rootRoom * 16 ≤ o.literalLength ∧ o.literalLength ≤ 2048 := by
  have hliteral := ho.literalLength_ge
  have hsize := ho.inodeSize
  rw [rootRoom]
  omega

theorem decode_rootFork (ho : o.Accepted) {links : List TreeLink}
    (hlt : ∀ l ∈ links, l.key < 2 ^ 64 ∧ l.address < 2 ^ 64)
    (hincreasing : increasing (links.map TreeLink.key) = true) (hne : links ≠ [])
    (hroom : links.length ≤ o.rootRoom) (hlevel : level < 2 ^ 16) (hpos : 0 < level) :
    (o.rootFork level links).size = o.literalLength ∧
      TreeRoot.decode (o.rootFork level links) = .ok { level, links } := by
  have hbounds := rootRoom_bounds ho
  have hcount := List.length_pos_iff.mpr hne
  have hhead : Field.Laid 0 4 [⟨0, 2, level⟩, ⟨2, 2, links.length⟩] := by
    simp [Field.Laid, Field.stop]
  have hkeys := Field.laid_fieldRun 8 (links.map TreeLink.key) 4
  have haddresses := Field.laid_fieldRun 8 (links.map TreeLink.address) (4 + o.rootRoom * 8)
  rw [List.length_map] at hkeys haddresses
  have hkeys : Field.Laid 4 (4 + o.rootRoom * 8) (fieldRun 4 8 (links.map TreeLink.key)) :=
    hkeys.mono (by omega)
  have hlaid := (hhead.append hkeys).append (haddresses.mono (show _ ≤ o.literalLength by omega))
  have hsize : (o.rootFork level links).size = o.literalLength := hlaid.size_blockOf
  refine ⟨hsize, ?_⟩
  have hw : (o.rootFork level links).size < wordLimit := by
    rw [hsize, wordLimit, UInt64.size]
    omega
  have hlevelAt : readU16 (o.rootFork level links) 0 = .ok (UInt16.ofNat level) := by
    rw [readU16_eq hw (by omega), rootFork, hlaid.beNat_blockOf (v := level) (by simp) hlevel]
  have hcountAt : readU16 (o.rootFork level links) 2 = .ok (UInt16.ofNat links.length) := by
    rw [readU16_eq hw (by omega), rootFork, hlaid.beNat_blockOf (v := links.length) (by simp)
      (by omega)]
  have hlevelNat : (UInt16.ofNat level).toNat = level := UInt16.toNat_ofNat_of_lt' hlevel
  have hcountNat : (UInt16.ofNat links.length).toNat = links.length :=
    UInt16.toNat_ofNat_of_lt' (by rw [UInt16.size]; omega)
  have hlimit : ((o.rootFork level links).size - 4) / 16 = o.rootRoom := by rw [hsize, rootRoom]
  have hlinks : sortedLinks (o.rootFork level links) 4 (4 + o.rootRoom * 8) links.length =
      .ok links := by
    refine sortedLinks_of_carries hw hlt (by omega) (by omega) ?_ ?_ hincreasing
    · refine hlaid.carries (fun f hf => by simp [hf]) fun v hv => ?_
      obtain ⟨l, hl, rfl⟩ := List.mem_map.mp hv
      exact (hlt l hl).1
    · refine hlaid.carries (fun f hf => by simp [hf]) fun v hv => ?_
      obtain ⟨l, hl, rfl⟩ := List.mem_map.mp hv
      exact (hlt l hl).2
  have hdecode := TreeRoot.decode_eq hlevelAt hcountAt (by rwa [hlevelNat]) (by rwa [hcountNat])
    (by rw [hcountNat, hlimit]; exact hroom) (by rw [hcountNat, hlimit]; exact hlinks)
  rwa [hlevelNat] at hdecode

end ImageOptions

end XfsVolume
