import XfsVolume.Proofs.Digits
import XfsVolume.Proofs.Directory.HashIndex

/-!
# Listing through the hash index

The listing of a leaf directory hands out the live entries of its leaf, and that of a node directory
the live entries of all leaves of its chain. A cursor stands before a slot of a leaf; a step goes on
to the next live slot, in this leaf or a later one.
-/

namespace XfsVolume

namespace Medium

variable {m : Medium} {dir : Inode}

/-! ## One leaf -/

theorem liveFrom_eq_none : ∀ {es : List HashEntry} {slot : Nat}, liveFrom slot es = none →
    liveEntries es = []
  | [], _, _ => rfl
  | e :: es, slot, h => by
      rw [liveFrom] at h
      split at h
      · rename_i hstale
        rw [liveEntries_cons_stale hstale]
        exact liveFrom_eq_none h
      · cases h

theorem liveFrom_eq_some : ∀ {es : List HashEntry} {slot index : Nat} {e : HashEntry},
    liveFrom slot es = some (e, index) → slot ≤ index ∧ index < slot + es.length ∧
      liveEntries es = e :: liveEntries (es.drop (index + 1 - slot))
  | [], _, _, _, h => by cases h
  | a :: es, slot, index, e, h => by
      rw [liveFrom] at h
      rw [List.length_cons]
      split at h
      · rename_i hstale
        obtain ⟨hle, hlt, hlive⟩ := liveFrom_eq_some h
        refine ⟨by omega, by omega, ?_⟩
        have hdrop : index + 1 - slot = (index + 1 - (slot + 1)) + 1 := by omega
        rw [liveEntries_cons_stale hstale, hlive, hdrop, List.drop_succ_cons]
      · rename_i hlive
        cases h
        refine ⟨Nat.le_refl _, by omega, ?_⟩
        rw [liveEntries_cons_live (Bool.eq_false_iff.mpr hlive), Nat.add_sub_cancel_left]
        rfl

theorem fresh_liveEntryFrom {entries : List HashEntry} {slot : Nat} :
    (liveEntries (entries.drop slot) = [] →
      fresh (m.liveEntryFrom dir entries slot) = .ok none) ∧
    (∀ e rest, liveEntries (entries.drop slot) = e :: rest → ∃ index, index < entries.length ∧
      rest = liveEntries (entries.drop (index + 1)) ∧
      fresh (m.liveEntryFrom dir entries slot) =
        (fresh (m.entryAt dir e.address)).map fun d => some (d, index)) := by
  rw [liveEntryFrom]
  rcases hfrom : liveFrom slot (entries.drop slot) with - | ⟨a, index⟩
  · have hnone := liveFrom_eq_none hfrom
    refine ⟨fun _ => rfl, ?_⟩
    intro e rest h
    rw [hnone] at h
    cases h
  · obtain ⟨hle, hlt, hlive⟩ := liveFrom_eq_some hfrom
    rw [List.length_drop] at hlt
    rw [List.drop_drop] at hlive
    have hdrop : slot + (index + 1 - slot) = index + 1 := by omega
    rw [hdrop] at hlive
    rw [hlive]
    refine ⟨(by intro hnil; cases hnil), ?_⟩
    rintro e rest ⟨⟩
    refine ⟨index, by omega, rfl, ?_⟩
    dsimp only
    rw [fresh_bind (m.steady_entryAt dir _) fun _ => steady_pure _]
    cases fresh (m.entryAt dir a.address) with
    | ok d => rfl
    | error f => rfl

theorem fresh_nextLeaf {header : LeafHeader} {entries : List HashEntry}
    (h : fresh (m.readLeaf dir m.geometry.indexRegion .single) = .ok (header, entries))
    (cursor : DirCursor) :
    fresh (m.nextLeaf dir cursor) = fresh (m.liveEntryFrom dir entries cursor) >>= fun found =>
      .ok (found.map fun (entry, slot) => (entry, slot + 1)) := by
  rw [nextLeaf]
  refine (fresh_bind_ok (m.steady_readLeaf dir _ _) (fun leaf =>
    steady_bind (m.steady_liveEntryFrom dir _ _) fun found => ?_) h).trans ?_
  · rcases found with - | ⟨entry, slot⟩
    · exact steady_pure _
    · exact steady_pure _
  refine (fresh_bind (m.steady_liveEntryFrom dir _ _) fun found => ?_).trans ?_
  · rcases found with - | ⟨entry, slot⟩
    · exact steady_pure _
    · exact steady_pure _
  congr 1
  funext found
  rcases found with - | ⟨entry, slot⟩
  · rfl
  · rfl

/-- A leaf directory hands out the live entries of its leaf. -/
theorem sequence_leaf {header : LeafHeader} {entries : List HashEntry}
    (h : fresh (m.readLeaf dir m.geometry.indexRegion .single) = .ok (header, entries)) :
    Sequence (m.listStep .leaf dir) (fun e : HashEntry => fresh (m.entryAt dir e.address)) (.ok ())
      fun cursor items => items = liveEntries (entries.drop cursor) := by
  have hstep (cursor : DirCursor) : m.listStep .leaf dir cursor =
      fresh (m.liveEntryFrom dir entries cursor) >>= fun found =>
        .ok (found.map fun (entry, slot) => (entry, slot + 1)) := fresh_nextLeaf h cursor
  constructor
  · intro cursor hp
    rw [hstep, fresh_liveEntryFrom.1 hp.symm]
    rfl
  · intro cursor item items hp
    obtain ⟨index, -, hrest, hrun⟩ := fresh_liveEntryFrom.2 item items hp.symm
    refine ⟨index + 1, hrest, ?_⟩
    rw [hstep, hrun]
    cases fresh (m.entryAt dir item.address) with
    | ok d => rfl
    | error f => rfl

/-! ## The chain -/

theorem HashEntry.length_decodeRun {block : ByteArray} : ∀ {n off : Nat} {es : List HashEntry},
    HashEntry.decodeRun block off n = .ok es → es.length = n
  | 0, _, es, h => by
      cases h
      rfl
  | n + 1, _, es, h => by
      rw [HashEntry.decodeRun] at h
      simp only [bind_eq_ok, pure_eq_ok] at h
      obtain ⟨hash, -, address, -, rest, hrest, heq⟩ := h
      cases heq
      rw [List.length_cons, HashEntry.length_decodeRun hrest]

theorem length_of_readLeaf {fb : Nat} {kind : LeafKind} {header : LeafHeader}
    {entries : List HashEntry} (h : fresh (m.readLeaf dir fb kind) = .ok (header, entries)) :
    entries.length < UInt16.size := by
  obtain ⟨block, -, -, -, hentries⟩ := fresh_readLeaf_eq_ok.mp h
  rw [LeafHeader.entries, HashEntry.decodeList] at hentries
  simp only [throw_bind, bind_eq_ok, ite_error_eq_ok] at hentries
  obtain ⟨-, -, -, hrun⟩ := hentries
  rw [HashEntry.length_decodeRun hrun]
  exact header.count.toNat_lt

/-- Cursor before a slot of a leaf. -/
def chainCursor (m : Medium) (leaf : IndexLeaf) (slot : Nat) : DirCursor :=
  ((leaf.fileBlock - m.geometry.indexRegion + 1) <<< slotBits) + slot

theorem chainCursor_slot (m : Medium) (leaf : IndexLeaf) {slot : Nat} (h : slot < 1 <<< slotBits) :
    m.chainCursor leaf slot % (1 <<< slotBits) = slot := by
  rw [Nat.one_shiftLeft] at h
  exact (shift_digits_eq _ h).2

theorem chainCursor_place (m : Medium) (leaf : IndexLeaf) {slot : Nat} (h : slot < 1 <<< slotBits) :
    m.chainCursor leaf slot >>> slotBits = leaf.fileBlock - m.geometry.indexRegion + 1 := by
  rw [Nat.one_shiftLeft] at h
  exact (shift_digits_eq _ h).1

theorem checkIndexRegion_eq_ok {fb : Nat} :
    m.checkIndexRegion dir fb = .ok () ↔
      m.geometry.indexRegion ≤ fb ∧ fb < m.geometry.freeRegion := by
  rw [checkIndexRegion, ite_error_eq_ok, Bool.or_eq_true, decide_eq_true_eq, decide_eq_true_eq]
  constructor
  · rintro ⟨h, -⟩
    omega
  · intro h
    exact ⟨by omega, rfl⟩

theorem fresh_nextInChain {leaf : IndexLeaf} (h : m.LeafReads dir leaf) (links slot : Nat) :
    fresh (m.nextInChain dir links leaf.fileBlock slot) = (do
      match ← fresh (m.liveEntryFrom dir leaf.entries slot) with
      | some (entry, index) => .ok (some (entry, m.chainCursor leaf (index + 1)))
      | none =>
        if leaf.next = 0 then .ok none
        else
          match links with
          | 0 => .error (dirFault leaf.fileBlock .chainEndless)
          | links + 1 =>
            m.checkIndexRegion dir leaf.next
            fresh (m.nextInChain dir links leaf.next 0)) := by
  obtain ⟨header, hread, hnext⟩ := h
  have hzero := next_beq_zero hnext
  have hafter (header : LeafHeader) (found : Option (DirEntry × Nat)) : Steady m.device
      (match found with
      | some (entry, slot) => (pure (some (entry,
          ((leaf.fileBlock - m.geometry.indexRegion + 1) <<< slotBits) + (slot + 1))) :
            CacheM (Option (DirEntry × DirCursor)))
      | none =>
        if header.next == 0 then pure none
        else
          match links with
          | 0 => throw (dirFault leaf.fileBlock .chainEndless)
          | links + 1 =>
            liftM (m.checkIndexRegion dir header.next.toNat) >>= fun _ =>
              m.nextInChain dir links header.next.toNat 0) := by
    rcases found with - | ⟨entry, slot⟩
    · refine steady_ite (steady_pure _) ?_
      cases links with
      | zero => exact steady_throw _
      | succ links => exact steady_bind (steady_liftM _) fun _ => m.steady_nextInChain dir _ _ _
    · exact steady_pure _
  rw [nextInChain.eq_def]
  refine (fresh_bind_ok (m.steady_readLeaf dir _ _) (fun read =>
    steady_bind (m.steady_liveEntryFrom dir _ _) (hafter read.1)) hread).trans ?_
  refine (fresh_bind (m.steady_liveEntryFrom dir _ _) (hafter header)).trans ?_
  congr 1
  funext found
  rcases found with - | ⟨entry, index⟩
  · refine (fresh_ite _ _).trans ?_
    by_cases hn : leaf.next = 0
    · rw [if_pos (hzero.mpr hn), if_pos hn]
      rfl
    · rw [if_neg (mt hzero.mp hn), if_neg hn]
      cases links with
      | zero => rfl
      | succ links =>
        rw [← hnext]
        exact fresh_liftM_bind _ _
  · rfl

/-- The leaves from a file block on that can be read, each named by the one before it, and what ends
them: a leaf that names no other, or a block that is no leaf of the chain. -/
inductive ForwardChain (m : Medium) (dir : Inode) : Nat → List IndexLeaf → Except Fault Unit → Prop
  | broken {fb : Nat} {fault : Fault} (unread : fresh (m.readLeaf dir fb .chained) = .error fault) :
      ForwardChain m dir fb [] (.error fault)
  | last {leaf : IndexLeaf} (reads : m.LeafReads dir leaf) (ends : leaf.next = 0) :
      ForwardChain m dir leaf.fileBlock [leaf] (.ok ())
  | link {leaf : IndexLeaf} {rest : List IndexLeaf} {out : Except Fault Unit}
      (reads : m.LeafReads dir leaf) (goes : leaf.next ≠ 0)
      (after : ForwardChain m dir leaf.next rest out) :
      ForwardChain m dir leaf.fileBlock (leaf :: rest) out

/-- The first live entry in the leaves of a chain, one after the other to its end `out`, from slot
`slot` of the first on. -/
def stepLeaves (m : Medium) (dir : Inode) (out : Except Fault Unit) :
    List IndexLeaf → (slot : Nat) → Except Fault (Option (DirEntry × DirCursor))
  | [], _ => out.map fun _ => none
  | leaf :: rest, slot => do
    match ← fresh (m.liveEntryFrom dir leaf.entries slot) with
    | some (entry, index) => .ok (some (entry, m.chainCursor leaf (index + 1)))
    | none =>
      if leaf.next ≠ 0 then m.checkIndexRegion dir leaf.next
      m.stepLeaves dir out rest 0

section ForwardChain

variable {fb : Nat} {leaves : List IndexLeaf} {out : Except Fault Unit}

theorem ForwardChain.nextInChain_eq (h : m.ForwardChain dir fb leaves out) :
    ∀ {links slot : Nat}, leaves.length ≤ links →
      fresh (m.nextInChain dir links fb slot) = m.stepLeaves dir out leaves slot := by
  -- the links that are left bound the leaves that are left
  induction h with
  | broken unread =>
    intro links slot _
    rw [nextInChain.eq_def]
    exact fresh_bind_error unread
  | last reads ends =>
    intro links slot _
    rw [fresh_nextInChain reads, stepLeaves]
    congr 1
    funext found
    rcases found with - | ⟨entry, index⟩
    · dsimp only
      rw [if_pos ends, if_neg (not_not.mpr ends)]
      rfl
    · rfl
  | link reads goes after ih =>
    intro links slot hlinks
    obtain ⟨k, rfl⟩ := Nat.exists_eq_add_of_lt (Nat.lt_of_succ_le hlinks)
    rw [fresh_nextInChain reads, stepLeaves]
    congr 1
    funext found
    rcases found with - | ⟨entry, index⟩
    · dsimp only
      rw [if_neg goes, if_pos goes]
      congr 1
      funext _
      exact ih (Nat.le_add_right _ k)
    · rfl

/-- From any of its leaves on a chain is a chain. -/
theorem ForwardChain.suffix : ∀ {pre rest : List IndexLeaf} {leaf : IndexLeaf} {fb : Nat},
    m.ForwardChain dir fb (pre ++ leaf :: rest) out →
      m.ForwardChain dir leaf.fileBlock (leaf :: rest) out
  | [], _, _, _, h => by
      cases h with
      | last reads ends => exact .last reads ends
      | link reads goes after => exact .link reads goes after
  | first :: pre, rest, leaf, _, h => by
      rw [List.cons_append] at h
      generalize htail : pre ++ leaf :: rest = tail at h
      cases h with
      | last reads ends => exact absurd htail (by simp)
      | link reads goes after =>
        rw [← htail] at after
        exact after.suffix

theorem ForwardChain.reads (h : m.ForwardChain dir fb leaves out) :
    ∀ leaf ∈ leaves, m.LeafReads dir leaf := by
  induction h with
  | broken unread => exact List.forall_mem_nil _
  | last reads ends => exact List.forall_mem_singleton.mpr reads
  | link reads goes after ih => exact List.forall_mem_cons.mpr ⟨reads, ih⟩

/-- A block starts one chain. -/
theorem ForwardChain.unique (h : m.ForwardChain dir fb leaves out) :
    ∀ {leaves' : List IndexLeaf} {out' : Except Fault Unit},
      m.ForwardChain dir fb leaves' out' → leaves' = leaves ∧ out' = out := by
  induction h with
  | broken unread =>
    intro leaves' out' h'
    cases h' with
    | broken unread' =>
      cases unread.symm.trans unread'
      exact ⟨rfl, rfl⟩
    | last reads' ends' =>
      obtain ⟨header, hread, -⟩ := reads'
      cases unread.symm.trans hread
    | link reads' goes' after' =>
      obtain ⟨header, hread, -⟩ := reads'
      cases unread.symm.trans hread
  | @last leaf reads ends =>
    intro leaves' out' h'
    generalize hfb : leaf.fileBlock = fb at h'
    cases h' with
    | broken unread' =>
      obtain ⟨header, hread, -⟩ := reads
      rw [hfb, unread'] at hread
      cases hread
    | last reads' ends' =>
      obtain rfl := reads.unique reads' hfb
      exact ⟨rfl, rfl⟩
    | link reads' goes' after' =>
      obtain rfl := reads.unique reads' hfb
      exact absurd ends goes'
  | @link leaf rest out reads goes after ih =>
    intro leaves' out' h'
    generalize hfb : leaf.fileBlock = fb at h'
    cases h' with
    | broken unread' =>
      obtain ⟨header, hread, -⟩ := reads
      rw [hfb, unread'] at hread
      cases hread
    | last reads' ends' =>
      obtain rfl := reads.unique reads' hfb
      exact absurd ends' goes
    | link reads' goes' after' =>
      obtain rfl := reads.unique reads' hfb
      obtain ⟨rfl, rfl⟩ := ih after'
      exact ⟨rfl, rfl⟩

/-- The links between leaves lead to blocks of the index region. -/
def LinksInside (m : Medium) (dir : Inode) (leaves : List IndexLeaf) : Prop :=
  ∀ leaf ∈ leaves, leaf.next ≠ 0 → m.checkIndexRegion dir leaf.next = .ok ()

theorem ForwardChain.inRegion (h : m.ForwardChain dir fb leaves out)
    (hfirst : m.checkIndexRegion dir fb = .ok ()) (hlinks : m.LinksInside dir leaves) :
    ∀ leaf ∈ leaves, m.checkIndexRegion dir leaf.fileBlock = .ok () := by
  induction h with
  | broken unread => exact List.forall_mem_nil _
  | last reads ends => exact List.forall_mem_singleton.mpr hfirst
  | link reads goes after ih =>
    refine List.forall_mem_cons.mpr ⟨hfirst, ih (hlinks _ List.mem_cons_self goes) ?_⟩
    exact fun leaf hleaf => hlinks leaf (List.mem_cons_of_mem _ hleaf)

end ForwardChain

/-- The live entries that are still to come at a slot of the first leaf. -/
def remaining (slot : Nat) : List IndexLeaf → List HashEntry
  | [] => []
  | leaf :: rest => liveEntries (leaf.entries.drop slot) ++ liveEntries (chainEntries rest)

theorem remaining_zero (leaves : List IndexLeaf) :
    remaining 0 leaves = liveEntries (chainEntries leaves) := by
  cases leaves with
  | nil => rfl
  | cons leaf rest => rw [remaining, List.drop_zero, ← liveEntries_append, chainEntries_cons]

/-- A step through leaves ends as they do where nothing is left, and otherwise gives the entry of the
first live slot that is left, with the cursor after that slot. -/
theorem stepLeaves_eq {out : Except Fault Unit} : ∀ {leaves : List IndexLeaf} (slot : Nat),
    m.LinksInside dir leaves →
      (remaining slot leaves = [] → m.stepLeaves dir out leaves slot = out.map fun _ => none) ∧
      (∀ e items, remaining slot leaves = e :: items → ∃ pre found after index,
        leaves = pre ++ found :: after ∧ index < found.entries.length ∧
        items = remaining (index + 1) (found :: after) ∧
        m.stepLeaves dir out leaves slot = (fresh (m.entryAt dir e.address)).map fun d =>
          some (d, m.chainCursor found (index + 1)))
  | [], _, _ => ⟨fun _ => rfl, fun _ _ h => by cases h⟩
  | leaf :: rest, slot, hlinks => by
      rw [remaining]
      rcases hlive : liveEntries (leaf.entries.drop slot) with - | ⟨first, others⟩
      · have hskip : m.stepLeaves dir out (leaf :: rest) slot = m.stepLeaves dir out rest 0 := by
          rw [stepLeaves, fresh_liveEntryFrom.1 hlive, ok_bind]
          dsimp only
          split
          · rename_i hne
            rw [hlinks leaf List.mem_cons_self hne]
            rfl
          · rfl
        rw [hskip, List.nil_append, ← remaining_zero]
        obtain ⟨hlast, hnext⟩ :=
          stepLeaves_eq 0 fun l hl => hlinks l (List.mem_cons_of_mem _ hl)
        refine ⟨hlast, fun e items h => ?_⟩
        obtain ⟨pre, found, after, index, hsplit, hindex, hitems, hrun⟩ := hnext e items h
        exact ⟨leaf :: pre, found, after, index, by rw [hsplit, List.cons_append], hindex, hitems,
          hrun⟩
      · obtain ⟨index, hindex, hothers, hrun⟩ := fresh_liveEntryFrom.2 first others hlive
        refine ⟨(by intro h; cases h), ?_⟩
        intro e items h
        rw [List.cons_append] at h
        cases h
        refine ⟨[], leaf, rest, index, rfl, hindex, by rw [remaining, hothers], ?_⟩
        rw [stepLeaves, hrun]
        cases fresh (m.entryAt dir first.address) with
        | ok d => rfl
        | error f => rfl

/-! ## Listings of a chain -/

/-- The leaf from which a step of a listing goes along the chain. -/
def stepEntry (m : Medium) (dir : Inode) (cursor : DirCursor) : CacheM Nat :=
  if cursor >>> slotBits = 0 then m.indexLeaf dir List.head?
  else do
    m.checkIndexRegion dir (m.geometry.indexRegion + cursor >>> slotBits - 1)
    return m.geometry.indexRegion + cursor >>> slotBits - 1

theorem nextNode_eq_bind (cursor : DirCursor) :
    m.nextNode dir cursor = m.stepEntry dir cursor >>= fun fb =>
      m.nextInChain dir (m.maxLeafLinks dir) fb (cursor % (1 <<< slotBits)) := by
  rw [nextNode, stepEntry]
  dsimp only
  split
  · rfl
  · exact (bind_assoc _ _ _).symm

theorem steady_stepEntry (m : Medium) (dir : Inode) (cursor : DirCursor) :
    Steady m.device (m.stepEntry dir cursor) := by
  rw [stepEntry]
  exact steady_ite (m.steady_indexLeaf dir _)
    (steady_bind (steady_liftM _) fun _ => steady_pure _)

theorem fresh_nextNode {cursor : DirCursor} {fb : Nat}
    (h : fresh (m.stepEntry dir cursor) = .ok fb) :
    fresh (m.nextNode dir cursor) =
      fresh (m.nextInChain dir (m.maxLeafLinks dir) fb (cursor % (1 <<< slotBits))) := by
  rw [nextNode_eq_bind]
  exact fresh_bind_ok (m.steady_stepEntry dir cursor) (fun fb => m.steady_nextInChain dir _ _ _) h

theorem stepEntry_zero : m.stepEntry dir 0 = m.indexLeaf dir List.head? :=
  if_pos (Nat.zero_shiftRight slotBits)

theorem fresh_stepEntry_chainCursor {leaf : IndexLeaf}
    (hregion : m.checkIndexRegion dir leaf.fileBlock = .ok ()) {slot : Nat}
    (hslot : slot < 1 <<< slotBits) :
    fresh (m.stepEntry dir (m.chainCursor leaf slot)) = .ok leaf.fileBlock := by
  have hin := checkIndexRegion_eq_ok.mp hregion
  have hback : m.geometry.indexRegion +
      (leaf.fileBlock - m.geometry.indexRegion + 1) - 1 = leaf.fileBlock := by omega
  rw [stepEntry, m.chainCursor_place leaf hslot, if_neg (Nat.succ_ne_zero _), hback, hregion]
  rfl

/-- The entries of a chain that are still to come at a cursor. -/
def ChainPlace (m : Medium) (leaves : List IndexLeaf) (cursor : DirCursor)
    (items : List HashEntry) : Prop :=
  cursor = 0 ∧ items = remaining 0 leaves ∨ ∃ pre leaf rest slot, leaves = pre ++ leaf :: rest ∧
    items = remaining slot (leaf :: rest) ∧ cursor = m.chainCursor leaf slot ∧
    slot ≤ leaf.entries.length

theorem ChainPlace.listStep_eq {fb : Nat} {leaves : List IndexLeaf} {out : Except Fault Unit}
    (hentry : fresh (m.indexLeaf dir List.head?) = .ok fb)
    (hregion : m.checkIndexRegion dir fb = .ok ()) (hchain : m.ForwardChain dir fb leaves out)
    (hlinks : m.LinksInside dir leaves) (hfew : leaves.length ≤ m.maxLeafLinks dir)
    {cursor : DirCursor} {items : List HashEntry} (hplace : m.ChainPlace leaves cursor items) :
    ∃ pre rest slot, leaves = pre ++ rest ∧ items = remaining slot rest ∧
      m.listStep .node dir cursor = m.stepLeaves dir out rest slot := by
  rcases hplace with ⟨rfl, rfl⟩ | ⟨pre, leaf, rest, slot, rfl, rfl, rfl, hslot⟩
  · refine ⟨[], leaves, 0, rfl, rfl, ?_⟩
    rw [← stepEntry_zero] at hentry
    exact (fresh_nextNode hentry).trans (hchain.nextInChain_eq hfew)
  · refine ⟨pre, leaf :: rest, slot, rfl, rfl, ?_⟩
    have hmem : leaf ∈ pre ++ leaf :: rest := List.mem_append_right _ List.mem_cons_self
    obtain ⟨header, hread, -⟩ := hchain.reads leaf hmem
    have hlt : slot < 1 <<< slotBits := by
      have hsize : UInt16.size < 1 <<< slotBits := by decide
      have hlen := length_of_readLeaf hread
      omega
    have hinside := hchain.inRegion hregion hlinks leaf hmem
    refine (fresh_nextNode (fresh_stepEntry_chainCursor hinside hlt)).trans ?_
    rw [m.chainCursor_slot leaf hlt]
    refine hchain.suffix.nextInChain_eq (Nat.le_trans ?_ hfew)
    rw [List.length_append]
    exact Nat.le_add_left _ _

/-- A node directory hands out the live entries of the leaves of its chain, and ends as the chain
does. -/
theorem sequence_chain {fb : Nat} {leaves : List IndexLeaf} {out : Except Fault Unit}
    (hentry : fresh (m.indexLeaf dir List.head?) = .ok fb)
    (hregion : m.checkIndexRegion dir fb = .ok ()) (hchain : m.ForwardChain dir fb leaves out)
    (hlinks : m.LinksInside dir leaves) (hfew : leaves.length ≤ m.maxLeafLinks dir) :
    Sequence (m.listStep .node dir) (fun e : HashEntry => fresh (m.entryAt dir e.address)) out
      (m.ChainPlace leaves) := by
  have hinside {pre rest : List IndexLeaf} (h : leaves = pre ++ rest) :
      m.LinksInside dir rest :=
    fun leaf hleaf => hlinks leaf (h ▸ List.mem_append_right _ hleaf)
  constructor
  · intro cursor hplace
    obtain ⟨pre, rest, slot, hsplit, hitems, hrun⟩ :=
      hplace.listStep_eq hentry hregion hchain hlinks hfew
    rw [hrun]
    exact (stepLeaves_eq slot (hinside hsplit)).1 hitems.symm
  · intro cursor item items hplace
    obtain ⟨pre, rest, slot, hsplit, hitems, hrun⟩ :=
      hplace.listStep_eq hentry hregion hchain hlinks hfew
    obtain ⟨pre', found, after, index, rfl, hindex, hrest, hnext⟩ :=
      (stepLeaves_eq slot (hinside hsplit)).2 item items hitems.symm
    refine ⟨m.chainCursor found (index + 1),
      Or.inr ⟨pre ++ pre', found, after, index + 1, ?_, hrest, rfl, hindex⟩, ?_⟩
    · rw [hsplit, List.append_assoc]
    · rw [hrun, hnext]

theorem IndexBelow.leafAt : ∀ {level fb : Nat} {leaves : List IndexLeaf},
    m.IndexBelow dir level fb leaves → ∀ l ∈ leaves, m.IndexLeafAt dir l
  | 0, _, _, h, l, hl => by
      obtain ⟨leaf, -, hleaf, rfl⟩ := h
      rw [List.mem_singleton] at hl
      rw [hl]
      exact hleaf
  | level + 1, _, _, h, l, hl => by
      obtain ⟨node, groups, -, -, hholds, rfl⟩ := h
      obtain ⟨group, hgroup, hl⟩ := List.mem_flatten.mp hl
      obtain ⟨i, hi, rfl⟩ := List.getElem_of_mem hgroup
      have hlen := List.Forall₂.length_eq hholds
      exact IndexBelow.leafAt ((List.forall₂_iff_get.mp hholds).2 i (by omega) hi).1 l hl

theorem HashIndex.leafAt {leaves : List IndexLeaf} (h : m.HashIndex dir leaves) :
    ∀ l ∈ leaves, m.IndexLeafAt dir l := by
  obtain ⟨level, htree⟩ := h.tree
  exact htree.leafAt

/-- The leaves of a well-formed index form a chain that does not leave the region. -/
theorem forwardChain_of_chained : ∀ {rest : List IndexLeaf} {leaf : IndexLeaf},
    Chained (leaf :: rest) → (∀ l ∈ leaf :: rest, m.IndexLeafAt dir l) →
      m.ForwardChain dir leaf.fileBlock (leaf :: rest) (.ok ()) ∧ m.LinksInside dir (leaf :: rest)
  | [], leaf, hend, hleaves => by
      have hend : leaf.next = 0 := hend
      refine ⟨.last (hleaves leaf List.mem_cons_self).2 hend, ?_⟩
      exact List.forall_mem_singleton.mpr fun hne => absurd hend hne
  | next :: rest, leaf, ⟨hne, hlink, htail⟩, hleaves => by
      have hnext := (hleaves next (List.mem_cons_of_mem _ List.mem_cons_self)).1
      obtain ⟨hchain, hinside⟩ :=
        forwardChain_of_chained htail fun l hl => hleaves l (List.mem_cons_of_mem _ hl)
      rw [← hlink] at hchain hnext
      exact ⟨.link (hleaves leaf List.mem_cons_self).2 hne hchain,
        List.forall_mem_cons.mpr ⟨fun _ => hnext, hinside⟩⟩

/-- A node directory with a well-formed index hands out the live entries of its leaves. -/
theorem sequence_node {leaves : List IndexLeaf} (h : m.HashIndex dir leaves) :
    Sequence (m.listStep .node dir) (fun e : HashEntry => fresh (m.entryAt dir e.address)) (.ok ())
      (m.ChainPlace leaves) := by
  obtain ⟨pre, first, post, rfl, rfl, hentry⟩ := indexLeaf_eq indexChoice_first h
  rw [List.nil_append] at h ⊢
  obtain ⟨hchain, hinside⟩ := forwardChain_of_chained h.chained h.leafAt
  exact sequence_chain hentry (h.leafAt first List.mem_cons_self).1 hchain hinside h.few

end Medium

end XfsVolume
