import XfsVolume.Directory.IndexBlock
import XfsVolume.Fields
import XfsVolume.Proofs.Extent.StoredTree
import XfsVolume.Proofs.Failures

/-!
# Tables inside their blocks

Leaves of the hash index, blocks of small directories, and roots and nodes of extent trees hold a
table whose length is a number on the volume. The number is checked once against the room for the
table, and nothing is checked again where the table is read. The check is enough: what is read lies
behind the header and inside the bytes, the tables of a node lie apart from each other, and bytes
are reported as missing only where the header itself is cut off (`tables_inside`). Nothing is asked
of the bytes, not even that their number fits a word.
-/

namespace XfsVolume

/-! ## Reads that stay inside -/

/-- The error says that the bytes end too early. -/
def DecodeError.isShort : DecodeError → Bool
  | .insufficientData .. => true
  | .invalidMagic .. | .invalidField .. | .integerConversion _ => false

/-- The result is no report of missing bytes. -/
abbrev InBounds {α : Type} (r : Except DecodeError α) : Prop := FailsIn (·.isShort = false) r

section

variable {α β : Type} {b : ByteArray} {off len : Nat}

theorem need_of_le (hw : off + len < wordLimit) (h : off + len ≤ b.size) :
    need b off len = .ok () := by
  rw [need, if_neg (Nat.not_le.mpr hw), if_neg (Nat.not_lt.mpr h)]

theorem inBounds_need (h : off + len ≤ b.size) : InBounds (need b off len) := by
  rw [need]
  exact failsIn_ite (fun _ => failsIn_error rfl)
    fun _ => failsIn_ite (fun hpast => absurd h (Nat.not_le.mpr hpast)) fun _ => failsIn_ok ()

theorem inBounds_read {x : α} (h : off + len ≤ b.size) :
    InBounds (need b off len >>= fun _ => pure x) :=
  failsIn_bind (inBounds_need h) fun _ _ => failsIn_ok x

theorem inBounds_need_bind {f : Unit → Except DecodeError α} (hw : off + len < wordLimit) :
    InBounds (need b off len >>= f) ↔ off + len ≤ b.size ∧ InBounds (f ()) := by
  by_cases h : off + len ≤ b.size
  · rw [need_of_le hw h, ok_bind, and_iff_right h]
  · have hshort : need b off len = .error (.insufficientData len off (b.size - off)) := by
      rw [need, if_neg (Nat.not_le.mpr hw), if_pos (Nat.not_le.mp h)]
    rw [hshort, error_bind]
    refine iff_of_false (fun hin => ?_) fun hboth => h hboth.1
    cases hin _ rfl

theorem inBounds_read_bind {x : α} {f : α → Except DecodeError β} (hw : off + len < wordLimit) :
    InBounds ((need b off len >>= fun _ => pure x) >>= f) ↔
      off + len ≤ b.size ∧ InBounds (f x) := by
  rw [bind_assoc, inBounds_need_bind hw, pure_bind]

theorem of_read {x v : α} (h : (need b off len >>= fun _ => pure x) = .ok v) :
    off + len ≤ b.size ∧ v = x := by
  obtain ⟨hneed, heq⟩ := check_eq_ok.mp h
  exact ⟨le_of_need hneed, (Except.ok.inj heq).symm⟩

theorem beNat_lt (b : ByteArray) (off n : Nat) : beNat b off n < 256 ^ n := by
  induction n with
  | zero => exact Nat.one_pos
  | succ n ih =>
    have hbyte := UInt8.toNat_lt (byteAt b (off + n))
    rw [beNat, Nat.pow_succ]
    omega

theorem of_readU64 {v : UInt64} (h : readU64 b off = .ok v) : v.toNat = beNat b off 8 := by
  rw [(of_read h).2]
  exact UInt64.toNat_ofNat_of_lt' (beNat_lt b off 8)

end

/-! ## Hash entries -/

/-- The hash entry that stands at byte `off`. -/
def HashEntry.stored (block : ByteArray) (off : Nat) : HashEntry where
  hash := UInt32.ofNat (beNat block off 4)
  address := UInt32.ofNat (beNat block (off + 4) 4)

theorem HashEntry.decodeRun_eq {block : ByteArray} : ∀ {n off : Nat}, off + 8 * n < wordLimit →
    off + 8 * n ≤ block.size →
    decodeRun block off n = .ok ((List.range n).map fun i => stored block (off + 8 * i))
  | 0, _, _, _ => rfl
  | n + 1, off, hw, h => by
      have hrest : decodeRun block (off + 8) n =
          .ok ((List.range n).map fun i => stored block (off + 8 + 8 * i)) :=
        decodeRun_eq (by omega) (by omega)
      have hhash : readU32 block off = .ok (UInt32.ofNat (beNat block off 4)) := by
        rw [readU32, need_of_le (by omega) (by omega)]
        rfl
      have haddress : readU32 block (off + 4) = .ok (UInt32.ofNat (beNat block (off + 4) 4)) := by
        rw [readU32, need_of_le (by omega) (by omega)]
        rfl
      rw [decodeRun, hhash, ok_bind, haddress, ok_bind, hashEntryLength, hrest, ok_bind,
        List.range_succ_eq_map, List.map_cons, List.map_map]
      refine congrArg Except.ok (congrArg (List.cons _) (List.map_congr_left fun i _ => ?_))
      show stored block (off + 8 + 8 * i) = stored block (off + 8 * (i + 1))
      rw [Nat.mul_succ, Nat.add_assoc, Nat.add_comm 8]

/-! ## Leaves -/

namespace LeafHeader

/-- Bytes at the end of a leaf that its entries leave alone: those of the table of free lengths and
of the number of these. -/
def reserved (block : ByteArray) : LeafKind → Nat
  | .chained => 0
  | .single => 4 + 2 * beNat block (block.size - 4) 4

theorem of_entryLimit {block : ByteArray} {kind : LeafKind} {limit : Nat}
    (h : entryLimit block kind = .ok limit) : limit + reserved block kind = block.size := by
  rw [entryLimit.eq_def] at h
  cases kind with
  | chained =>
    cases h
    rfl
  | single =>
    simp only [throw_bind, bind_eq_ok, ite_error_eq_ok, pure_eq_ok] at h
    obtain ⟨hsize, count, hcount, hfits, heq⟩ := h
    have hnat : count.toNat = beNat block (block.size - 4) 4 := by
      rw [(of_read hcount).2]
      exact UInt32.toNat_ofNat_of_lt' (beNat_lt block _ 4)
    cases heq
    rw [reserved, ← hnat]
    omega

theorem inBounds_entryLimit {block : ByteArray} (kind : LeafKind) (h : 4 ≤ block.size) :
    InBounds (entryLimit block kind) := by
  rw [entryLimit.eq_def]
  cases kind with
  | chained => exact failsIn_ok _
  | single =>
    dsimp only
    rw [if_neg (Nat.not_lt.mpr h)]
    refine failsIn_bind (inBounds_read (by omega)) fun count _ => ?_
    exact failsIn_guard rfl fun _ => failsIn_ok _

/-- The entries of an accepted leaf lie between its header and what stands at its end, and are
read. -/
theorem entries_inside {block : ByteArray} {h : LeafHeader} (hdecode : decode block = .ok h) :
    h.length + 8 * h.count.toNat + reserved block h.kind ≤ block.size ∧
      h.entries block = .ok ((List.range h.count.toNat).map fun i =>
        HashEntry.stored block (h.length + 8 * i)) := by
  simp only [decode, bind_eq_ok] at hdecode
  obtain ⟨magic, -, hdecode⟩ := hdecode
  split at hdecode
  · rename_i kind crc _
    simp only [bind_eq_ok, throw_bind, ite_error_eq_ok, pure_eq_ok] at hdecode
    obtain ⟨-, -, count, -, stale, -, limit, hlimit, hfits, next, -, prev, -, heq⟩ := hdecode
    cases heq
    have hroom := of_entryLimit hlimit
    rw [Bool.or_eq_true, decide_eq_true_eq, not_or, hashEntryLength] at hfits
    show indexHeaderLength crc + 8 * count.toNat + reserved block kind ≤ block.size ∧
      HashEntry.decodeList block (indexHeaderLength crc) count.toNat = .ok
        ((List.range count.toNat).map fun i =>
          HashEntry.stored block (indexHeaderLength crc + 8 * i))
    have hheader : indexHeaderLength crc ≤ 64 := by
      cases crc
      · decide
      · decide
    have hcount := count.toNat_lt
    have hword : wordLimit = 2 ^ 64 := rfl
    refine ⟨by omega, ?_⟩
    rw [HashEntry.decodeList, hashEntryLength, if_neg (by omega),
      need_of_le (by omega) (by omega), ok_bind]
    exact HashEntry.decodeRun_eq (by omega) (by omega)
  · cases hdecode

theorem inBounds_decode {block : ByteArray} : InBounds (decode block) ↔ 10 ≤ block.size ∧
    ∀ kind crc, ofMagic? (UInt16.ofNat (beNat block 8 2)) = some (kind, crc) →
      indexHeaderLength crc ≤ block.size := by
  refine (inBounds_read_bind (by decide)).trans (and_congr_right fun hmagic => ?_)
  cases ofMagic? (UInt16.ofNat (beNat block 8 2)) with
  | none => exact iff_of_true (failsIn_error rfl) fun kind crc hsome => by cases hsome
  | some found =>
    obtain ⟨kind, crc⟩ := found
    have hcount : indexCountOffset crc + 4 ≤ indexHeaderLength crc ∧
        0 + indexHeaderLength crc < wordLimit := by
      cases crc
      · decide
      · decide
    constructor
    · intro hin kind' crc' hsome
      cases hsome
      have hheader := ((inBounds_need_bind hcount.2).mp hin).1
      rwa [Nat.zero_add] at hheader
    · intro hheader
      have hlong := hheader kind crc rfl
      refine failsIn_bind (inBounds_need (by omega)) fun _ _ => ?_
      refine failsIn_bind (inBounds_read (by omega)) fun count _ => ?_
      refine failsIn_bind (inBounds_read (by omega)) fun stale _ => ?_
      refine failsIn_bind (inBounds_entryLimit kind (by omega)) fun limit _ => ?_
      refine failsIn_guard rfl fun _ => ?_
      refine failsIn_bind (inBounds_read (by omega)) fun next _ => ?_
      exact failsIn_bind (inBounds_read (by omega)) fun prev _ => failsIn_ok _

end LeafHeader

/-! ## Tails -/

namespace BlockTail

/-- The hash entries of an accepted block stand between its header and its tail, and end where the
tail starts. -/
theorem entries_inside {block : ByteArray} {header : Nat} {tail : BlockTail}
    (h : decode block header = .ok tail) :
    header ≤ tail.indexOffset ∧ tail.indexOffset + 8 * tail.count.toNat + 8 = block.size := by
  simp only [decode, bind_eq_ok, throw_bind, ite_error_eq_ok, pure_eq_ok] at h
  obtain ⟨hsize, count, -, stale, -, hfits, happart, heq⟩ := h
  rw [Bool.or_eq_true, decide_eq_true_eq, not_or] at happart
  rw [hashEntryLength] at hfits happart heq
  cases heq
  show header ≤ block.size - 8 - count.toNat * 8 ∧
    block.size - 8 - count.toNat * 8 + 8 * count.toNat + 8 = block.size
  omega

theorem inBounds_decode {block : ByteArray} {header : Nat} :
    InBounds (decode block header) ↔ 8 ≤ block.size := by
  rw [decode]
  by_cases hsize : block.size < 8
  · rw [if_pos hsize]
    refine iff_of_false ?_ (Nat.not_le.mpr hsize)
    intro hin
    cases hin _ rfl
  · rw [if_neg hsize]
    refine iff_of_true ?_ (Nat.not_lt.mp hsize)
    refine failsIn_bind (inBounds_read (by omega)) fun count _ => ?_
    refine failsIn_bind (inBounds_read (by omega)) fun stale _ => ?_
    exact failsIn_guard rfl fun _ => failsIn_guard rfl fun _ => failsIn_ok _

end BlockTail

/-! ## Keys and addresses -/

/-- The link whose key stands at byte `key` and its address at byte `address`. -/
def TreeLink.stored (b : ByteArray) (key address : Nat) : TreeLink where
  key := beNat b key 8
  address := beNat b address 8

/-- The links are `count` in number and stand in two arrays, the keys behind a header of `header`
bytes and the addresses from byte `addresses` on: both arrays lie inside the bytes, and apart from
each other. The keys increase. -/
structure LinksStand (b : ByteArray) (header addresses count : Nat) (links : List TreeLink) :
    Prop where
  counted : links.length = count
  nonempty : 0 < count
  apart : header + 8 * count ≤ addresses
  inside : addresses + 8 * count ≤ b.size
  read : links = (List.range count).map fun i =>
    TreeLink.stored b (header + 8 * i) (addresses + 8 * i)
  increasing : (links.map TreeLink.key).Pairwise (· < ·)

theorem pairwise_of_increasing : ∀ {keys : List Nat}, increasing keys = true →
    keys.Pairwise (· < ·)
  | [], _ => .nil
  | [key], _ => List.pairwise_singleton _ key
  | a :: b :: rest, h => by
      rw [increasing, Bool.and_eq_true, decide_eq_true_eq] at h
      have hrest := pairwise_of_increasing h.2
      refine List.pairwise_cons.mpr ⟨fun x hx => ?_, hrest⟩
      rcases List.mem_cons.mp hx with rfl | hx
      · exact h.1
      · exact Nat.lt_trans h.1 (List.rel_of_pairwise_cons hrest hx)

section

variable {b : ByteArray}

theorem of_decodeLinks : ∀ {n keyOff addressOff : Nat} {links : List TreeLink},
    decodeLinks b keyOff addressOff n = .ok links →
    links = (List.range n).map fun i => TreeLink.stored b (keyOff + 8 * i) (addressOff + 8 * i)
  | 0, _, _, _, h => by
      cases h
      rfl
  | n + 1, keyOff, addressOff, _, h => by
      simp only [decodeLinks, bind_eq_ok, pure_eq_ok] at h
      obtain ⟨key, hkey, address, haddress, rest, hrest, heq⟩ := h
      cases heq
      rw [of_decodeLinks hrest, of_readU64 hkey, of_readU64 haddress, List.range_succ_eq_map,
        List.map_cons, List.map_map]
      refine congrArg (List.cons _) (List.map_congr_left fun i _ => ?_)
      show TreeLink.stored b (keyOff + 8 + 8 * i) (addressOff + 8 + 8 * i) =
        TreeLink.stored b (keyOff + 8 * (i + 1)) (addressOff + 8 * (i + 1))
      rw [Nat.mul_succ, Nat.add_assoc, Nat.add_assoc, Nat.add_comm 8]

theorem inBounds_decodeLinks : ∀ {n keyOff addressOff : Nat}, keyOff + 8 * n ≤ b.size →
    addressOff + 8 * n ≤ b.size → InBounds (decodeLinks b keyOff addressOff n)
  | 0, _, _, _, _ => failsIn_ok _
  | n + 1, keyOff, addressOff, hkeys, haddresses => by
      rw [decodeLinks]
      refine failsIn_bind (inBounds_read (by omega)) fun key _ => ?_
      refine failsIn_bind (inBounds_read (by omega)) fun address _ => ?_
      exact failsIn_bind (inBounds_decodeLinks (by omega) (by omega)) fun links _ => failsIn_ok _

theorem inBounds_sortedLinks {keyOff addressOff n : Nat} (hkeys : keyOff + 8 * n ≤ b.size)
    (haddresses : addressOff + 8 * n ≤ b.size) :
    InBounds (sortedLinks b keyOff addressOff n) := by
  rw [sortedLinks]
  refine failsIn_bind (inBounds_decodeLinks hkeys haddresses) fun links _ => ?_
  exact failsIn_ite (fun _ => failsIn_ok _) fun _ => failsIn_error rfl

theorem linksStand_of_sortedLinks {header count : Nat} {links : List TreeLink} (hcount : count ≠ 0)
    (hfits : count ≤ (b.size - header) / 16)
    (h : sortedLinks b header (header + (b.size - header) / 16 * 8) count = .ok links) :
    LinksStand b header (header + 8 * ((b.size - header) / 16)) count links := by
  rw [Nat.mul_comm _ 8] at h
  have hlength := length_sortedLinks h
  simp only [sortedLinks, bind_eq_ok] at h
  obtain ⟨found, hfound, h⟩ := h
  split at h
  · rename_i hkeys
    cases h
    exact {
      counted := hlength
      nonempty := Nat.pos_of_ne_zero hcount
      apart := by omega
      inside := by omega
      read := of_decodeLinks hfound
      increasing := pairwise_of_increasing hkeys }
  · cases h

theorem inBounds_checkRecordCount (count limit : Nat) :
    InBounds (checkRecordCount count limit) := by
  rw [checkRecordCount]
  exact failsIn_ite (fun _ => failsIn_error rfl) fun _ => failsIn_ok _

theorem inBounds_decodeList : ∀ {n off : Nat}, off + 16 * n ≤ b.size →
    InBounds (Extent.decodeList b off n)
  | 0, _, _ => failsIn_ok _
  | n + 1, off, h => by
      rw [Extent.decodeList, Extent.decode]
      refine failsIn_bind ?_ fun e _ => ?_
      · refine failsIn_bind (inBounds_read (by omega)) fun hi _ => ?_
        exact failsIn_bind (inBounds_read (by omega)) fun lo _ => failsIn_ok _
      · exact failsIn_bind (inBounds_decodeList (by omega)) fun es _ => failsIn_ok _

end

/-! ## Roots and nodes of extent trees -/

theorem TreeRoot.links_inside {fork : ByteArray} {root : TreeRoot} (h : decode fork = .ok root) :
    LinksStand fork 4 (4 + 8 * ((fork.size - 4) / 16)) (beNat fork 2 2) root.links := by
  simp only [decode, bind_eq_ok, ite_error_eq_ok, throw_bind, pure_eq_ok] at h
  obtain ⟨level, -, count, hcount, -, u, hfits, links, hlinks, heq⟩ := h
  obtain ⟨hne, hle⟩ := ne_zero_of_checkRecordCount hfits
  have hnat : count.toNat = beNat fork 2 2 := by
    rw [(of_read hcount).2]
    exact UInt16.toNat_ofNat_of_lt' (beNat_lt fork 2 2)
  cases heq
  rw [← hnat]
  exact linksStand_of_sortedLinks hne hle hlinks

theorem TreeRoot.inBounds_decode {fork : ByteArray} :
    InBounds (decode fork) ↔ 4 ≤ fork.size := by
  constructor
  · intro hin
    have hrest := ((inBounds_read_bind (by decide)).mp hin).2
    exact ((inBounds_read_bind (by decide)).mp hrest).1
  · intro hsize
    rw [decode]
    refine failsIn_bind (inBounds_read (by omega)) fun level _ => ?_
    refine failsIn_bind (inBounds_read (by omega)) fun count _ => ?_
    refine failsIn_guard rfl fun _ => ?_
    refine failsIn_bind (inBounds_checkRecordCount _ _) fun u hfits => ?_
    have hle := (ne_zero_of_checkRecordCount hfits).2
    exact failsIn_bind (inBounds_sortedLinks (by omega) (by omega)) fun links _ => failsIn_ok _

def TreeNode.headerLength (node : TreeNode) : Nat :=
  if node.crc then nodeHeaderLengthCrc else nodeHeaderLength

theorem TreeNode.links_inside {block : ByteArray} {node : TreeNode} {links : List TreeLink}
    (h : decode block = .ok node) (hbody : node.body = .interior links) :
    LinksStand block node.headerLength
      (node.headerLength + 8 * ((block.size - node.headerLength) / 16)) (beNat block 6 2)
      links := by
  simp only [decode, bind_eq_ok, ite_error_eq_ok, throw_bind, pure_eq_ok] at h
  obtain ⟨magic, -, -, level, -, count, hcount, left, -, right, -, u, hfits, h⟩ := h
  obtain ⟨hne, hle⟩ := ne_zero_of_checkRecordCount hfits
  have hnat : count.toNat = beNat block 6 2 := by
    rw [(of_read hcount).2]
    exact UInt16.toNat_ofNat_of_lt' (beNat_lt block 6 2)
  rw [← hnat]
  split at h
  · simp only [bind_eq_ok, map_eq_ok] at h
    obtain ⟨body, ⟨extents, -, rfl⟩, heq⟩ := h
    cases heq
    cases hbody
  · simp only [bind_eq_ok, map_eq_ok] at h
    obtain ⟨body, ⟨found, hfound, rfl⟩, heq⟩ := h
    cases heq
    cases hbody
    exact linksStand_of_sortedLinks hne hle hfound

theorem TreeNode.inBounds_decode {block : ByteArray} : InBounds (decode block) ↔
    4 ≤ block.size ∧ (UInt32.ofNat (beNat block 0 4) = treeMagic ∨
      UInt32.ofNat (beNat block 0 4) = treeMagicCrc → 24 ≤ block.size) := by
  refine (inBounds_read_bind (by decide)).trans (and_congr_right fun hmagic => ?_)
  generalize UInt32.ofNat (beNat block 0 4) = magic
  by_cases hknown : magic = treeMagic ∨ magic = treeMagicCrc
  · have hmark : (decide (magic ≠ treeMagic) && decide (magic ≠ treeMagicCrc)) = false := by
      rcases hknown with rfl | rfl
      · rfl
      · rfl
    rw [hmark, if_neg Bool.false_ne_true, imp_iff_right hknown]
    constructor
    · intro hin
      have hlevel := ((inBounds_read_bind (by decide)).mp hin).2
      have hcount := ((inBounds_read_bind (by decide)).mp hlevel).2
      have hleft := ((inBounds_read_bind (by decide)).mp hcount).2
      exact ((inBounds_read_bind (by decide)).mp hleft).1
    · intro hsize
      have hheader : 24 ≤ (if magic == treeMagicCrc then nodeHeaderLengthCrc
          else nodeHeaderLength) := by
        split
        · decide
        · decide
      refine failsIn_bind (inBounds_read (by omega)) fun level _ => ?_
      refine failsIn_bind (inBounds_read (by omega)) fun count _ => ?_
      refine failsIn_bind (inBounds_read (by omega)) fun left _ => ?_
      refine failsIn_bind (inBounds_read (by omega)) fun right _ => ?_
      dsimp only
      generalize (if magic == treeMagicCrc then nodeHeaderLengthCrc else nodeHeaderLength) = header
        at hheader ⊢
      refine failsIn_bind (inBounds_checkRecordCount _ _) fun u hfits => ?_
      obtain ⟨hne, hle⟩ := ne_zero_of_checkRecordCount hfits
      refine failsIn_ite (fun _ => ?_) fun _ => ?_
      · exact failsIn_bind (failsIn_map _ (inBounds_decodeList (by omega)))
          fun body _ => failsIn_ok _
      · exact failsIn_bind (failsIn_map _ (inBounds_sortedLinks (by omega) (by omega)))
          fun body _ => failsIn_ok _
  · have hmark : (decide (magic ≠ treeMagic) && decide (magic ≠ treeMagicCrc)) = true := by
      rw [not_or] at hknown
      simp [hknown]
    rw [hmark, if_pos rfl]
    exact iff_of_true (failsIn_error rfl) fun h => absurd h hknown

/-! ## All tables -/

/-- **Tables lie inside their blocks.** Whatever the bytes are: the entries of an accepted leaf are
read, all of them, from between its header and the table of free lengths, or the end of the block
where there is none; those of an accepted block directory end where its tail starts; and the keys
and addresses of an accepted root or interior node stand in arrays behind its header, apart from
each other, with keys that increase. Missing bytes are reported exactly where the header is cut off,
which is before a count is checked, and so never once it is. -/
theorem tables_inside (block : ByteArray) :
    ((∀ h, LeafHeader.decode block = .ok h →
        h.length + 8 * h.count.toNat + LeafHeader.reserved block h.kind ≤ block.size ∧
        h.entries block = .ok ((List.range h.count.toNat).map fun i =>
          HashEntry.stored block (h.length + 8 * i))) ∧
      (InBounds (LeafHeader.decode block) ↔ 10 ≤ block.size ∧
        ∀ kind crc, LeafHeader.ofMagic? (UInt16.ofNat (beNat block 8 2)) = some (kind, crc) →
          indexHeaderLength crc ≤ block.size)) ∧
    (∀ header, (∀ tail, BlockTail.decode block header = .ok tail →
        header ≤ tail.indexOffset ∧ tail.indexOffset + 8 * tail.count.toNat + 8 = block.size) ∧
      (InBounds (BlockTail.decode block header) ↔ 8 ≤ block.size)) ∧
    ((∀ root, TreeRoot.decode block = .ok root →
        LinksStand block 4 (4 + 8 * ((block.size - 4) / 16)) (beNat block 2 2) root.links) ∧
      (InBounds (TreeRoot.decode block) ↔ 4 ≤ block.size)) ∧
    (∀ node links, TreeNode.decode block = .ok node → node.body = .interior links →
        LinksStand block node.headerLength
          (node.headerLength + 8 * ((block.size - node.headerLength) / 16)) (beNat block 6 2)
          links) ∧
      (InBounds (TreeNode.decode block) ↔ 4 ≤ block.size ∧
        (UInt32.ofNat (beNat block 0 4) = treeMagic ∨
          UInt32.ofNat (beNat block 0 4) = treeMagicCrc → 24 ≤ block.size)) := by
  refine ⟨⟨fun h => LeafHeader.entries_inside, LeafHeader.inBounds_decode⟩, fun header => ?_,
    ⟨fun root => TreeRoot.links_inside, TreeRoot.inBounds_decode⟩,
    fun node links => TreeNode.links_inside, TreeNode.inBounds_decode⟩
  exact ⟨fun tail => BlockTail.entries_inside, BlockTail.inBounds_decode⟩

def fullLeaf : ByteArray :=
  blockOf 38 [⟨8, 2, LeafKind.single.magic.toNat⟩, ⟨12, 2, 2⟩, ⟨16, 4, 5⟩, ⟨20, 4, 2⟩, ⟨24, 4, 9⟩,
    ⟨28, 4, 3⟩, ⟨32, 2, 16⟩, ⟨34, 4, 1⟩]

def fullRoot : ByteArray :=
  blockOf 36 [⟨0, 2, 1⟩, ⟨2, 2, 2⟩, ⟨4, 8, 3⟩, ⟨12, 8, 8⟩, ⟨20, 8, 100⟩, ⟨28, 8, 101⟩]

/-- The two entries of the leaf end at its table, and the four numbers of the root at its end. -/
theorem tables_inside_full :
    (∃ h, LeafHeader.decode fullLeaf = .ok h ∧ h.entries fullLeaf = .ok [⟨5, 2⟩, ⟨9, 3⟩] ∧
      h.length + 8 * h.count.toNat + LeafHeader.reserved fullLeaf h.kind ≤ 38) ∧
    ∃ root, TreeRoot.decode fullRoot = .ok root ∧ root.links = [⟨3, 100⟩, ⟨8, 101⟩] ∧
      LinksStand fullRoot 4 20 2 root.links := by
  have hleaf : LeafHeader.decode fullLeaf = .ok ⟨.single, false, 0, 0, 2, 0⟩ := by decide +kernel
  have hroot : TreeRoot.decode fullRoot = .ok ⟨1, [⟨3, 100⟩, ⟨8, 101⟩]⟩ := by decide +kernel
  obtain ⟨hfits, hentries⟩ := (tables_inside fullLeaf).1.1 _ hleaf
  have hlinks := (tables_inside fullRoot).2.2.1.1 _ hroot
  have hleafSize : fullLeaf.size = 38 := by decide +kernel
  have hsize : fullRoot.size = 36 := by decide +kernel
  have hcount : beNat fullRoot 2 2 = 2 := by decide +kernel
  rw [hleafSize] at hfits
  rw [hsize, hcount] at hlinks
  refine ⟨⟨_, hleaf, ?_, hfits⟩, _, hroot, rfl, hlinks⟩
  rw [hentries]
  decide +kernel

end XfsVolume
