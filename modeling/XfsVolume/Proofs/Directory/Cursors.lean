import XfsVolume.Proofs.Directory.Agreement

/-!
# Cursors of a listing

Inline and block directories count their entries, and a leaf directory counts the slots of its one
leaf, so that each step of a listing ends at a cursor above the one it started from. In a node
directory the cursor after a step stands above the cursor before it as long as the step stays in its
leaf, or goes on to a leaf in a later block. A step that runs out of its leaf goes where the forward
link leads: `TurnsBack` says that this is a leaf in the same or an earlier block, and those are the
only steps after which a listing does not stand further on.
-/

namespace XfsVolume

theorem fresh_ok_of_bind {α β : Type} {x : CacheM α} {f : α → CacheM β} {b : β}
    (h : fresh (x >>= f) = .ok b) : ∃ a, fresh x = .ok a := by
  rw [fresh, run_bind] at h
  rw [fresh]
  generalize x.run.run _ = after at h ⊢
  obtain ⟨e | a, c⟩ := after
  · cases h
  · exact ⟨a, rfl⟩

namespace Medium

variable {m : Medium} {dir : Inode}

/-! ## Steps along the chain -/

/-- A step along the chain from slot `slot` of a leaf finds its entry in slot `index` of `last`,
after leaves with no live slot left. -/
inductive StepsTo (m : Medium) (dir : Inode) (last : IndexLeaf) (index : Nat) :
    IndexLeaf → Nat → Prop
  | here {slot : Nat} {e : HashEntry}
      (live : liveFrom slot (last.entries.drop slot) = some (e, index)) :
      StepsTo m dir last index last slot
  | link {leaf next : IndexLeaf} {slot : Nat}
      (exhausted : liveFrom slot (leaf.entries.drop slot) = none) (more : leaf.next ≠ 0)
      (follows : next.fileBlock = leaf.next) (leafAt : m.IndexLeafAt dir next)
      (rest : StepsTo m dir last index next 0) : StepsTo m dir last index leaf slot

theorem IndexLeafAt.unique {leaf leaf' : IndexLeaf} (h : m.IndexLeafAt dir leaf)
    (h' : m.IndexLeafAt dir leaf') (heq : leaf.fileBlock = leaf'.fileBlock) : leaf = leaf' :=
  LeafReads.unique h.2 h'.2 heq

/-- A step along the chain ends in one place. -/
theorem StepsTo.unique {last last' leaf : IndexLeaf} {index index' slot : Nat}
    (h : m.StepsTo dir last index leaf slot) (h' : m.StepsTo dir last' index' leaf slot) :
    last = last' ∧ index = index' := by
  induction h with
  | here live =>
    cases h' with
    | here live' =>
      rw [live] at live'
      cases live'
      exact ⟨rfl, rfl⟩
    | link exhausted' _ _ _ _ =>
      rw [live] at exhausted'
      cases exhausted'
  | link exhausted more follows leafAt rest ih =>
    cases h' with
    | here live' =>
      rw [exhausted] at live'
      cases live'
    | link exhausted' more' follows' leafAt' rest' =>
      cases leafAt.unique leafAt' (follows.trans follows'.symm)
      exact ih rest'

/-- The leaf in which a step ends is one of the chain. -/
theorem StepsTo.leafAt {last leaf : IndexLeaf} {index slot : Nat}
    (h : m.StepsTo dir last index leaf slot) (hleaf : m.IndexLeafAt dir leaf) :
    m.IndexLeafAt dir last := by
  induction h with
  | here live => exact hleaf
  | link exhausted more follows leafAt rest ih => exact ih leafAt

theorem StepsTo.index_lt {last leaf : IndexLeaf} {index slot : Nat}
    (h : m.StepsTo dir last index leaf slot) : index < last.entries.length := by
  induction h with
  | @here slot e live =>
    obtain ⟨hle, hlt, -⟩ := liveFrom_eq_some live
    rw [List.length_drop] at hlt
    omega
  | link exhausted more follows leafAt rest ih => exact ih

theorem leafAt_of_nextInChain {links fb slot : Nat} {r : Option (DirEntry × DirCursor)}
    (hregion : m.checkIndexRegion dir fb = .ok ())
    (h : fresh (m.nextInChain dir links fb slot) = .ok r) :
    ∃ leaf : IndexLeaf, leaf.fileBlock = fb ∧ m.IndexLeafAt dir leaf := by
  rw [nextInChain.eq_def] at h
  obtain ⟨⟨header, entries⟩, hread⟩ := fresh_ok_of_bind h
  exact ⟨⟨fb, header.next.toNat, entries⟩, rfl, hregion, header, hread, rfl⟩

theorem stepsTo_of_nextInChain : ∀ {links slot : Nat} {leaf : IndexLeaf} {entry : DirEntry}
    {next : DirCursor}, m.IndexLeafAt dir leaf →
      fresh (m.nextInChain dir links leaf.fileBlock slot) = .ok (some (entry, next)) →
      ∃ last index, m.StepsTo dir last index leaf slot ∧ next = m.chainCursor last (index + 1)
  | links, slot, leaf, entry, next, hleaf, h => by
      rw [fresh_nextInChain hleaf.2, liveEntryFrom] at h
      rcases hlive : liveFrom slot (leaf.entries.drop slot) with - | ⟨e, index⟩
      · rw [hlive] at h
        dsimp only at h
        rw [fresh_pure, ok_bind] at h
        dsimp only at h
        by_cases hend : leaf.next = 0
        · rw [if_pos hend] at h
          cases h
        · rw [if_neg hend] at h
          cases links with
          | zero => cases h
          | succ links =>
            obtain ⟨u, hregion, hrest⟩ := bind_eq_ok.mp h
            obtain ⟨after, hafter, hat⟩ := leafAt_of_nextInChain hregion hrest
            rw [← hafter] at hrest
            obtain ⟨last, index, hsteps, hnext⟩ := stepsTo_of_nextInChain hat hrest
            exact ⟨last, index, .link hlive hend hafter hat hsteps, hnext⟩
      · rw [hlive] at h
        dsimp only at h
        rw [fresh_bind (m.steady_entryAt dir _) fun _ => steady_pure _] at h
        obtain ⟨found, hfound, h⟩ := bind_eq_ok.mp h
        obtain ⟨d, -, hd⟩ := bind_eq_ok.mp hfound
        cases hd
        cases h
        exact ⟨leaf, index, .here hlive, rfl⟩

/-! ## Cursors before and after a step -/

/-- The step from `cursor`, which names a leaf with no live slot left, goes along the links to a
leaf in the same or an earlier block. -/
def TurnsBack (m : Medium) (dir : Inode) (cursor : DirCursor) : Prop :=
  m.dirFormat dir = .ok .node ∧ ∃ leaf slot last index, m.IndexLeafAt dir leaf ∧
    slot < 1 <<< slotBits ∧ cursor = m.chainCursor leaf slot ∧
    liveFrom slot (leaf.entries.drop slot) = none ∧ m.StepsTo dir last index leaf slot ∧
    last.fileBlock ≤ leaf.fileBlock

/-- Every link leads from a leaf to a later block. -/
def LinksForward (m : Medium) (dir : Inode) : Prop :=
  ∀ leaf : IndexLeaf, m.IndexLeafAt dir leaf → leaf.next ≠ 0 → leaf.fileBlock < leaf.next

theorem StepsTo.fileBlock_le (hlinks : m.LinksForward dir) {last leaf : IndexLeaf}
    {index slot : Nat} (h : m.StepsTo dir last index leaf slot) (hleaf : m.IndexLeafAt dir leaf) :
    leaf.fileBlock ≤ last.fileBlock := by
  induction h with
  | here live => exact Nat.le_refl _
  | link exhausted more follows leafAt rest ih =>
    have hlt := hlinks _ hleaf more
    have hle := ih leafAt
    omega

theorem LinksForward.not_turnsBack (hlinks : m.LinksForward dir) (cursor : DirCursor) :
    ¬ m.TurnsBack dir cursor := by
  rintro ⟨-, leaf, slot, last, index, hleaf, -, -, hnone, hsteps, hle⟩
  cases hsteps with
  | here live =>
    rw [hnone] at live
    cases live
  | link exhausted more follows leafAt rest =>
    have hlt := hlinks leaf hleaf more
    have hrest := rest.fileBlock_le hlinks leafAt
    omega

theorem chainCursor_eq {leaf : IndexLeaf} {cursor : Nat} (hplace : cursor >>> slotBits ≠ 0)
    (hleaf : leaf.fileBlock = m.geometry.indexRegion + cursor >>> slotBits - 1) :
    m.chainCursor leaf (cursor % (1 <<< slotBits)) = cursor := by
  have hback : leaf.fileBlock - m.geometry.indexRegion + 1 = cursor >>> slotBits := by
    rw [hleaf]
    generalize cursor >>> slotBits = place at hplace
    omega
  rw [chainCursor, hback, Nat.shiftLeft_eq, Nat.shiftRight_eq_div_pow, Nat.one_shiftLeft]
  exact Nat.div_add_mod' _ _

theorem chainCursor_lt {leaf last : IndexLeaf} {slot : Nat} (hslot : slot < 1 <<< slotBits)
    (hleaf : m.geometry.indexRegion ≤ leaf.fileBlock) (h : leaf.fileBlock < last.fileBlock)
    (index : Nat) : m.chainCursor leaf slot < m.chainCursor last index := by
  have hplace : leaf.fileBlock - m.geometry.indexRegion + 1 + 1 ≤
      last.fileBlock - m.geometry.indexRegion + 1 := by omega
  rw [Nat.one_shiftLeft] at hslot
  rw [chainCursor, chainCursor, Nat.shiftLeft_eq, Nat.shiftLeft_eq]
  generalize leaf.fileBlock - m.geometry.indexRegion + 1 = before at hplace
  calc before * 2 ^ slotBits + slot
      < before * 2 ^ slotBits + 2 ^ slotBits := Nat.add_lt_add_left hslot _
    _ = (before + 1) * 2 ^ slotBits := (Nat.succ_mul before _).symm
    _ ≤ (last.fileBlock - m.geometry.indexRegion + 1) * 2 ^ slotBits :=
        Nat.mul_le_mul_right _ hplace
    _ ≤ _ := Nat.le_add_right _ index

theorem chainCursor_inj {leaf leaf' : IndexLeaf} {slot slot' : Nat} (hleaf : m.IndexLeafAt dir leaf)
    (hleaf' : m.IndexLeafAt dir leaf') (hslot : slot < 1 <<< slotBits)
    (hslot' : slot' < 1 <<< slotBits) (h : m.chainCursor leaf slot = m.chainCursor leaf' slot') :
    leaf = leaf' ∧ slot = slot' := by
  obtain ⟨hge, -⟩ := checkIndexRegion_eq_ok.mp hleaf.1
  obtain ⟨hge', -⟩ := checkIndexRegion_eq_ok.mp hleaf'.1
  have hslots := congrArg (· % (1 <<< slotBits)) h
  have hplaces := congrArg (· >>> slotBits) h
  rw [chainCursor_slot _ _ hslot, chainCursor_slot _ _ hslot'] at hslots
  rw [chainCursor_place _ _ hslot, chainCursor_place _ _ hslot'] at hplaces
  exact ⟨hleaf.unique hleaf' (by omega), hslots⟩

theorem mem_liveEntries_drop : ∀ {es : List HashEntry} {slot index : Nat} {e : HashEntry},
    liveFrom slot es = some (e, index) → ∀ k, slot + k ≤ index → e ∈ liveEntries (es.drop k)
  | [], _, _, _, h, _, _ => by cases h
  | a :: es, slot, index, e, h, k, hk => by
      rw [liveFrom] at h
      split at h
      · rename_i hstale
        cases k with
        | zero =>
          have hrest := mem_liveEntries_drop h 0 (liveFrom_eq_some h).1
          rw [List.drop_zero] at hrest ⊢
          rwa [liveEntries_cons_stale hstale]
        | succ k => exact mem_liveEntries_drop h k (by omega)
      · rename_i hlive
        cases h
        obtain rfl : k = 0 := by omega
        rw [List.drop_zero, liveEntries_cons_live (Bool.eq_false_iff.mpr hlive)]
        exact List.mem_cons_self

theorem StepsTo.first_live {last leaf : IndexLeaf} {index slot : Nat}
    (h : m.StepsTo dir last index leaf slot)
    (hnone : liveFrom slot (leaf.entries.drop slot) = none) :
    ∃ e, liveFrom 0 last.entries = some (e, index) := by
  have hfrom {leaf : IndexLeaf} {slot : Nat} (h : m.StepsTo dir last index leaf slot) :
      slot = 0 ∨ liveFrom slot (leaf.entries.drop slot) = none →
        ∃ e, liveFrom 0 last.entries = some (e, index) := by
    induction h with
    | @here slot e live =>
      rintro (rfl | hnone)
      · exact ⟨e, live⟩
      · rw [live] at hnone
        cases hnone
    | link exhausted more follows leafAt rest ih => exact fun _ => ih (Or.inl rfl)
  exact hfrom h (Or.inr hnone)

/-- The step from a cursor that names a leaf gets above the cursor, unless it leaves the leaf and
ends in one that is not in a later block. -/
theorem StepsTo.advances {last leaf : IndexLeaf} {index slot : Nat}
    (h : m.StepsTo dir last index leaf slot) (hleaf : m.IndexLeafAt dir leaf)
    (hslot : slot < 1 <<< slotBits) :
    m.chainCursor leaf slot < m.chainCursor last (index + 1) ↔
      ¬ (liveFrom slot (leaf.entries.drop slot) = none ∧ last.fileBlock ≤ leaf.fileBlock) := by
  have hlast := h.leafAt hleaf
  obtain ⟨hleaf_ge, -⟩ := checkIndexRegion_eq_ok.mp hleaf.1
  obtain ⟨hlast_ge, -⟩ := checkIndexRegion_eq_ok.mp hlast.1
  rcases Nat.lt_trichotomy leaf.fileBlock last.fileBlock with hlt | heq | hgt
  · refine iff_of_true (chainCursor_lt hslot hleaf_ge hlt _) ?_
    rintro ⟨-, hle⟩
    omega
  · obtain rfl := hleaf.unique hlast heq
    rw [chainCursor, chainCursor, Nat.add_lt_add_iff_left]
    cases hlive : liveFrom slot (leaf.entries.drop slot) with
    | none =>
      -- the step came back to its leaf, where every live slot is before the one it started from
      obtain ⟨e, hfirst⟩ := h.first_live hlive
      have hbefore : index < slot := by
        apply Nat.lt_of_not_le
        intro hle
        have hmem := mem_liveEntries_drop hfirst slot (by omega)
        rw [liveFrom_eq_none hlive] at hmem
        cases hmem
      refine iff_of_false (by omega) ?_
      exact fun hnot => hnot ⟨rfl, Nat.le_refl _⟩
    | some found =>
      obtain ⟨e, index'⟩ := found
      obtain ⟨-, rfl⟩ := h.unique (.here hlive)
      have hle := (liveFrom_eq_some hlive).1
      refine iff_of_true (by omega) ?_
      rintro ⟨hnone, -⟩
      cases hnone
  · have hlt : index + 1 < 1 <<< slotBits := by
      obtain ⟨-, header, hread, -⟩ := hlast
      have hsize : UInt16.size < 1 <<< slotBits := by decide
      have hlen := length_of_readLeaf hread
      have hindex := h.index_lt
      omega
    refine iff_of_false ?_ ?_
    · exact Nat.lt_asymm (chainCursor_lt hlt hlast_ge hgt _)
    · intro hnot
      refine hnot ⟨?_, by omega⟩
      cases h with
      | here live => omega
      | link exhausted more follows leafAt rest => exact exhausted

/-! ## Steps of a listing -/

theorem region_of_readIndexBlock {fb : Nat} {expected : Option Nat} {block : IndexBlock}
    (h : fresh (m.readIndexBlock dir fb expected) = .ok block) :
    m.checkIndexRegion dir fb = .ok () := by
  rw [fresh_readIndexBlock] at h
  obtain ⟨u, hregion, -⟩ := bind_eq_ok.mp h
  exact hregion

theorem region_of_descendIndex {pick : List NodeEntry → Option NodeEntry} :
    ∀ {level fb found : Nat}, fresh (m.descendIndex dir pick level fb) = .ok found →
      m.checkIndexRegion dir found = .ok ()
  | level, fb, found, h => by
      rw [fresh_descendIndex] at h
      obtain ⟨block, hblock, h⟩ := bind_eq_ok.mp h
      cases block with
      | leaf =>
        cases h
        exact region_of_readIndexBlock hblock
      | node n =>
        cases level with
        | zero => cases h
        | succ level =>
          dsimp only at h
          split at h
          · exact region_of_descendIndex h
          · cases h

theorem region_of_indexLeaf {pick : List NodeEntry → Option NodeEntry} {found : Nat}
    (h : fresh (m.indexLeaf dir pick) = .ok found) : m.checkIndexRegion dir found = .ok () := by
  rw [fresh_indexLeaf] at h
  obtain ⟨block, hblock, h⟩ := bind_eq_ok.mp h
  cases block with
  | leaf =>
    cases h
    exact region_of_readIndexBlock hblock
  | node n =>
    dsimp only at h
    split at h
    · exact region_of_descendIndex h
    · cases h

theorem le_chainCursor (leaf : IndexLeaf) (slot : Nat) :
    1 <<< slotBits ≤ m.chainCursor leaf slot := by
  rw [chainCursor, Nat.shiftLeft_eq, Nat.shiftLeft_eq]
  calc 1 * 2 ^ slotBits
      ≤ (leaf.fileBlock - m.geometry.indexRegion + 1) * 2 ^ slotBits :=
        Nat.mul_le_mul_right _ (Nat.le_add_left _ _)
    _ ≤ _ := Nat.le_add_right _ slot

/-- What a step in a node directory does to the cursor: it gets above the cursor it was given, but
for the steps that turn back. -/
theorem nextNode_advances {cursor next : DirCursor} {entry : DirEntry}
    (hformat : m.dirFormat dir = .ok .node)
    (h : fresh (m.nextNode dir cursor) = .ok (some (entry, next))) :
    cursor < next ↔ ¬ m.TurnsBack dir cursor := by
  rw [nextNode] at h
  by_cases hplace : cursor >>> slotBits = 0
  · have hsmall : cursor < 1 <<< slotBits := by
      rw [Nat.shiftRight_eq_div_pow, Nat.div_eq_zero_iff] at hplace
      rw [Nat.one_shiftLeft]
      exact hplace.resolve_left (Nat.ne_of_gt (Nat.two_pow_pos _))
    rw [if_pos hplace, fresh_bind_eq_ok (m.steady_indexLeaf dir _) fun fb =>
      m.steady_nextInChain dir _ _ _] at h
    obtain ⟨fb, hfb, h⟩ := h
    obtain ⟨leaf, rfl, hleaf⟩ := leafAt_of_nextInChain (region_of_indexLeaf hfb) h
    obtain ⟨last, index, -, rfl⟩ := stepsTo_of_nextInChain hleaf h
    refine iff_of_true (Nat.lt_of_lt_of_le hsmall (le_chainCursor _ _)) ?_
    rintro ⟨-, leaf, slot, -, -, -, -, rfl, -⟩
    exact absurd (le_chainCursor leaf slot) (Nat.not_le.mpr hsmall)
  · rw [if_neg hplace] at h
    dsimp only at h
    obtain ⟨u, hregion, h⟩ := bind_eq_ok.mp ((fresh_liftM_bind _ _).symm.trans h)
    obtain ⟨leaf, hat, hleaf⟩ := leafAt_of_nextInChain hregion h
    replace h : fresh (m.nextInChain dir (m.maxLeafLinks dir) leaf.fileBlock
        (cursor % (1 <<< slotBits))) = .ok (some (entry, next)) := by
      rw [hat]
      exact h
    obtain ⟨last, index, hsteps, rfl⟩ := stepsTo_of_nextInChain hleaf h
    have hcursor := chainCursor_eq hplace hat
    have hslot : cursor % (1 <<< slotBits) < 1 <<< slotBits := Nat.mod_lt _ (by decide)
    have hadvances := hsteps.advances hleaf hslot
    rw [hcursor] at hadvances
    rw [hadvances, not_iff_not]
    constructor
    · rintro ⟨hnone, hle⟩
      exact ⟨hformat, leaf, _, last, index, hleaf, hslot, hcursor.symm, hnone, hsteps, hle⟩
    · rintro ⟨-, leaf', slot', last', index', hleaf', hslot', hcursor', hnone, hsteps', hle⟩
      obtain ⟨rfl, rfl⟩ := chainCursor_inj hleaf' hleaf hslot' hslot
        (hcursor'.symm.trans hcursor.symm)
      obtain ⟨rfl, -⟩ := hsteps.unique hsteps'
      exact ⟨hnone, hle⟩

theorem nextBlock_advances {cursor next : DirCursor} {entry : DirEntry}
    (h : fresh (m.nextBlock dir cursor) = .ok (some (entry, next))) : next = cursor + 1 := by
  rw [nextBlock, fresh_bind_eq_ok (m.steady_blockWalk dir) fun walk => by
    cases walk.entries[cursor]? with
    | some e => exact steady_pure _
    | none => exact steady_liftM _] at h
  obtain ⟨walk, -, h⟩ := h
  cases hfound : walk.entries[cursor]? with
  | some e =>
    rw [hfound] at h
    cases h
    rfl
  | none =>
    rw [hfound] at h
    dsimp only at h
    rw [fresh_liftM, walkEnd_eq] at h
    obtain ⟨u, -, hnone⟩ := map_eq_ok.mp h
    cases hnone

theorem nextInline_advances {cursor next : DirCursor} {entry : DirEntry}
    (h : m.nextInline dir cursor = .ok (some (entry, next))) : next = cursor + 1 := by
  obtain ⟨listing, -, h⟩ := bind_eq_ok.mp h
  obtain ⟨e, -, he⟩ := Option.map_eq_some_iff.mp (Except.ok.inj h)
  cases he
  rfl

theorem nextLeaf_advances {cursor next : DirCursor} {entry : DirEntry}
    (h : fresh (m.nextLeaf dir cursor) = .ok (some (entry, next))) : cursor < next := by
  obtain ⟨⟨header, entries⟩, hleaf⟩ := fresh_ok_of_bind h
  rw [fresh_nextLeaf hleaf] at h
  obtain ⟨found, hfound, h⟩ := bind_eq_ok.mp h
  rw [liveEntryFrom] at hfound
  rcases hlive : liveFrom cursor (entries.drop cursor) with - | ⟨e, index⟩
  · rw [hlive] at hfound
    cases hfound
    cases h
  · rw [hlive] at hfound
    dsimp only at hfound
    rw [fresh_bind_eq_ok (m.steady_entryAt dir _) fun _ => steady_pure _] at hfound
    obtain ⟨d, -, hd⟩ := hfound
    cases hd
    cases h
    exact Nat.lt_succ_of_le (liveFrom_eq_some hlive).1

theorem nextEntryAs_advances {format : DirFormat} {cursor next : DirCursor} {entry : DirEntry}
    (hformat : m.dirFormat dir = .ok format)
    (h : fresh (m.nextEntryAs format dir cursor) = .ok (some (entry, next))) :
    cursor < next ↔ ¬ m.TurnsBack dir cursor := by
  have hother (hne : format ≠ .node) : ¬ m.TurnsBack dir cursor := by
    rintro ⟨hnode, -⟩
    exact hne (Except.ok.inj (hformat.symm.trans hnode))
  cases format with
  | inline =>
    rw [nextInline_advances h]
    exact iff_of_true (Nat.lt_succ_self _) (hother nofun)
  | block =>
    rw [nextBlock_advances h]
    exact iff_of_true (Nat.lt_succ_self _) (hother nofun)
  | leaf => exact iff_of_true (nextLeaf_advances h) (hother nofun)
  | node => exact nextNode_advances hformat h

/-! ## Whole listings -/

theorem pairwise_of_listFrom {dev : Device}
    {step : DirCursor → CacheM (Option (DirEntry × DirCursor))}
    (hs : ∀ cursor, Steady dev (step cursor))
    (hstep : ∀ cursor entry next, fresh (step cursor) = .ok (some (entry, next)) → cursor < next) :
    ∀ {fuel : Nat} {cursor : DirCursor} {acc found : List (DirEntry × DirCursor)},
      fresh (listFrom step fuel cursor acc) = .ok found →
        ∃ rest, found = acc.reverse ++ rest ∧ (cursor :: rest.map Prod.snd).Pairwise (· < ·)
  | 0, _, _, _, h => by cases h
  | fuel + 1, cursor, acc, found, h => by
      rw [listFrom, fresh_bind_eq_ok (hs cursor) fun r => by
        rcases r with - | ⟨entry, next⟩
        · exact steady_pure _
        · exact steady_listFrom hs fuel next _] at h
      obtain ⟨r, hr, h⟩ := h
      rcases r with - | ⟨entry, next⟩
      · cases h
        exact ⟨[], (List.append_nil _).symm, List.pairwise_singleton _ _⟩
      · obtain ⟨rest, rfl, hrest⟩ := pairwise_of_listFrom hs hstep h
        have hlt := hstep cursor entry next hr
        refine ⟨(entry, next) :: rest, ?_, ?_⟩
        · rw [List.reverse_cons, List.append_assoc]
          rfl
        · rw [List.map_cons]
          refine List.pairwise_cons.mpr ⟨?_, hrest⟩
          intro later hlater
          rcases List.mem_cons.mp hlater with rfl | hlater
          · exact hlt
          · exact Nat.lt_trans hlt ((List.pairwise_cons.mp hrest).1 later hlater)

/-- **Cursors increase, but where a chain of leaves turns back.** A step that finds an entry gets
above the cursor it was given, whatever that cursor, unless it leaves an exhausted leaf of a node
directory and ends in a leaf that is not in a later block. Where all links between leaves lead to
later blocks every step gets further, and the cursors of a listing stand in increasing order. -/
theorem nextEntry_advances_iff {c : BlockCache} (hc : c.Agrees m.device) :
    (∀ cursor entry next, ((m.nextEntry dir cursor).run.run c).1 = .ok (some (entry, next)) →
      (cursor < next ↔ ¬ m.TurnsBack dir cursor)) ∧
    (m.LinksForward dir → ∀ cursor,
      (∀ entry next, ((m.nextEntry dir cursor).run.run c).1 = .ok (some (entry, next)) →
        cursor < next) ∧
      ∀ fuel found, ((listFrom (m.nextEntry dir) fuel cursor []).run.run c).1 = .ok found →
        (cursor :: found.map Prod.snd).Pairwise (· < ·)) := by
  have hsteady (cursor : DirCursor) : Steady m.device (m.nextEntry dir cursor) :=
    steady_bind (steady_liftM _) fun format => m.steady_nextEntryAs format dir cursor
  have hfresh (cursor : DirCursor) (entry : DirEntry) (next : DirCursor)
      (h : fresh (m.nextEntry dir cursor) = .ok (some (entry, next))) :
      cursor < next ↔ ¬ m.TurnsBack dir cursor := by
    obtain ⟨format, hformat, h⟩ := bind_eq_ok.mp ((fresh_liftM_bind _ _).symm.trans h)
    exact nextEntryAs_advances hformat h
  have hstep (cursor : DirCursor) (entry : DirEntry) (next : DirCursor)
      (h : ((m.nextEntry dir cursor).run.run c).1 = .ok (some (entry, next))) :
      cursor < next ↔ ¬ m.TurnsBack dir cursor := by
    rw [(hsteady cursor c hc).1] at h
    exact hfresh cursor entry next h
  refine ⟨hstep, fun hlinks cursor => ⟨?_, ?_⟩⟩
  · intro entry next h
    exact (hstep cursor entry next h).mpr (hlinks.not_turnsBack cursor)
  · intro fuel found h
    rw [(steady_listFrom hsteady fuel cursor [] c hc).1] at h
    obtain ⟨rest, rfl, hpairwise⟩ := pairwise_of_listFrom hsteady
      (fun cursor entry next h => (hfresh cursor entry next h).mpr (hlinks.not_turnsBack cursor)) h
    exact hpairwise

/-! ### Small directories -/

theorem smallDir_linksForward : smallDir.LinksForward smallDirInode := by
  rintro ⟨fb, next, entries⟩ ⟨hregion, header, hread, hnext⟩ hne
  obtain ⟨hge, hlt⟩ := checkIndexRegion_eq_ok.mp hregion
  have hge : 4 ≤ fb := hge
  have hlt : fb < 8 := hlt
  have hnode : (fresh (smallDir.readLeaf smallDirInode 4 .chained)).isOk = false := by
    decide +kernel
  have hfirst : fresh (smallDir.readLeaf smallDirInode 5 .chained) =
      .ok (⟨.chained, false, 6, 0, 2, 1⟩, [⟨0x61, 2⟩, ⟨0x62, 0⟩]) := by decide +kernel
  have hsecond : fresh (smallDir.readLeaf smallDirInode 6 .chained) =
      .ok (⟨.chained, false, 0, 0, 1, 0⟩, [⟨0x62, 4⟩]) := by decide +kernel
  have hunmapped : (fresh (smallDir.readLeaf smallDirInode 7 .chained)).isOk = false := by
    decide +kernel
  obtain rfl | rfl | rfl | rfl : fb = 4 ∨ fb = 5 ∨ fb = 6 ∨ fb = 7 := by omega
  · rw [hread] at hnode
    cases hnode
  · cases hfirst.symm.trans hread
    subst hnext
    exact show 5 < 6 by decide
  · cases hsecond.symm.trans hread
    exact absurd hnext.symm hne
  · rw [hread] at hunmapped
    cases hunmapped

/-- The small directory with a link from its second leaf back to its first. -/
def circularDir : Medium := { smallDir with
  device := ⟨⟨⟨smallData ++ smallIndex 0 nodeMagic.toNat 2 1 [0x62, 5, 0x62, 6] ++
    smallIndex 6 LeafKind.chained.magic.toNat 2 1 [0x61, 2, 0x62, 0] ++
    smallIndex 5 LeafKind.chained.magic.toNat 1 0 [0x62, 4]⟩⟩, 64⟩ }

theorem circularDir_turns :
    ((circularDir.nextEntry smallDirInode ((3 <<< slotBits) + 1)).run.run
      (BlockCache.withCapacity 2)).1 =
        .ok (some (⟨11, [0x61], .unknown⟩, (2 <<< slotBits) + 1)) := by
  decide +kernel

/-- From `a`, whose leaf has a link to a later block, to `b`; and where the leaf of `b` has a link
to the earlier block, back from `b` to `a`. -/
theorem nextEntry_smallDir :
    (BlockCache.withCapacity 2).Agrees smallDir.device ∧
      ((smallDir.nextEntry smallDirInode ((2 <<< slotBits) + 1)).run.run
        (BlockCache.withCapacity 2)).1 =
          .ok (some (⟨12, [0x62], .unknown⟩, (3 <<< slotBits) + 1)) ∧
      (2 <<< slotBits) + 1 < (3 <<< slotBits) + 1 ∧
      circularDir.TurnsBack smallDirInode ((3 <<< slotBits) + 1) := by
  have hagrees := BlockCache.agrees_withCapacity 2 smallDir.device
  have hstep : ((smallDir.nextEntry smallDirInode ((2 <<< slotBits) + 1)).run.run
      (BlockCache.withCapacity 2)).1 =
        .ok (some (⟨12, [0x62], .unknown⟩, (3 <<< slotBits) + 1)) := by decide +kernel
  refine ⟨hagrees, hstep, ?_, ?_⟩
  · exact ((nextEntry_advances_iff hagrees).2 smallDir_linksForward _).1 _ _ hstep
  · have hback := (nextEntry_advances_iff (BlockCache.agrees_withCapacity 2 circularDir.device)).1
      _ _ _ circularDir_turns
    exact not_not.mp (mt hback.mpr (by decide))

/-- Not every step gets above the cursor it was given. -/
theorem nextEntry_does_not_advance :
    ¬ ∀ (m : Medium) (dir : Inode) (c : BlockCache) (cursor next : DirCursor) (entry : DirEntry),
      c.Agrees m.device → ((m.nextEntry dir cursor).run.run c).1 = .ok (some (entry, next)) →
      cursor < next := by
  intro h
  have hlt := h circularDir smallDirInode _ _ _ _ (BlockCache.agrees_withCapacity 2 _)
    circularDir_turns
  exact absurd hlt (by decide)

end Medium

end XfsVolume
