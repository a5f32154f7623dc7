import XfsVolume.Proofs.Directory.Listing
import XfsVolume.Proofs.Extent.StoredTree

/-!
# The hash index of a directory

A leaf directory has one leaf of hash entries, and a node directory a chain of them below a tree of
nodes (`HashIndex`). A descent reaches one of the leaves: taking first children the first one, and
taking the child for a hash one before which every hash is smaller. A listing goes along the chain
and hands out the live entries of its leaves in order.
-/

namespace XfsVolume

def liveEntries (entries : List HashEntry) : List HashEntry := entries.filter (!·.isStale)

@[simp] theorem liveEntries_nil : liveEntries [] = [] := rfl

theorem liveEntries_append (xs ys : List HashEntry) :
    liveEntries (xs ++ ys) = liveEntries xs ++ liveEntries ys := List.filter_append ..

theorem liveEntries_cons_stale {e : HashEntry} (h : e.isStale = true) (es : List HashEntry) :
    liveEntries (e :: es) = liveEntries es := by
  rw [liveEntries, List.filter_cons_of_neg (by rw [h]; decide), liveEntries]

theorem liveEntries_cons_live {e : HashEntry} (h : e.isStale = false) (es : List HashEntry) :
    liveEntries (e :: es) = e :: liveEntries es := by
  rw [liveEntries, List.filter_cons_of_pos (by rw [h]; decide), liveEntries]

/-- A leaf of the index of a node directory. -/
structure IndexLeaf where
  fileBlock : Nat
  /-- File block of the next leaf; zero at the end. -/
  next : Nat
  entries : List HashEntry

/-- Leaves each of which names the next one, and the last of which names none; zero names none. -/
def Chained : List IndexLeaf → Prop
  | [] => True
  | [leaf] => leaf.next = 0
  | a :: b :: rest => a.next ≠ 0 ∧ a.next = b.fileBlock ∧ Chained (b :: rest)

theorem Chained.tail {leaf : IndexLeaf} {rest : List IndexLeaf} (h : Chained (leaf :: rest)) :
    Chained rest := by
  cases rest with
  | nil => trivial
  | cons next rest => exact h.2.2

theorem Chained.suffix : ∀ {pre rest : List IndexLeaf}, Chained (pre ++ rest) → Chained rest
  | [], _, h => h
  | _ :: _, _, h => Chained.suffix h.tail

def chainEntries (leaves : List IndexLeaf) : List HashEntry := leaves.flatMap (·.entries)

@[simp] theorem chainEntries_nil : chainEntries [] = [] := rfl

@[simp] theorem chainEntries_cons (leaf : IndexLeaf) (leaves : List IndexLeaf) :
    chainEntries (leaf :: leaves) = leaf.entries ++ chainEntries leaves := rfl

@[simp] theorem chainEntries_append (xs ys : List IndexLeaf) :
    chainEntries (xs ++ ys) = chainEntries xs ++ chainEntries ys := List.flatMap_append

theorem HashNode.length_decodeEntries {block : ByteArray} : ∀ {n off : Nat} {es : List NodeEntry},
    HashNode.decodeEntries block off n = .ok es → es.length = n
  | 0, _, es, h => by
      cases h
      rfl
  | n + 1, _, es, h => by
      rw [HashNode.decodeEntries] at h
      simp only [bind_eq_ok, pure_eq_ok] at h
      obtain ⟨hash, -, child, -, rest, hrest, heq⟩ := h
      cases heq
      rw [List.length_cons, HashNode.length_decodeEntries hrest]

theorem HashNode.entries_ne_nil {block : ByteArray} {node : HashNode}
    (h : HashNode.decode block = .ok node) : node.entries ≠ [] := by
  simp only [HashNode.decode, bind_eq_ok, ite_error_eq_ok, throw_bind, pure_eq_ok] at h
  obtain ⟨magic, -, -, -, -, count, -, level, -, hcount, -, es, hes, next, -, prev, -, heq⟩ := h
  cases heq
  have hlen := HashNode.length_decodeEntries hes
  rw [Bool.or_eq_true, decide_eq_true_eq] at hcount
  intro hnil
  have hnil : es = [] := hnil
  rw [hnil, List.length_nil] at hlen
  exact hcount (Or.inl hlen.symm)

/-- A decoded node stands at most five levels above the leaves. -/
theorem HashNode.level_le {block : ByteArray} {node : HashNode}
    (h : HashNode.decode block = .ok node) : node.level ≤ maxNodeDepth := by
  simp only [HashNode.decode, bind_eq_ok, ite_error_eq_ok, throw_bind, pure_eq_ok] at h
  obtain ⟨magic, -, -, -, -, count, -, level, -, -, hlevel, es, -, next, -, prev, -, heq⟩ := h
  cases heq
  rw [Bool.or_eq_true, decide_eq_true_eq, decide_eq_true_eq, not_or] at hlevel
  exact Nat.not_lt.mp hlevel.2

namespace Medium

/-- A leaf of the chain, inside the index region. -/
def IndexLeafAt (m : Medium) (dir : Inode) (leaf : IndexLeaf) : Prop :=
  m.checkIndexRegion dir leaf.fileBlock = .ok () ∧
    ∃ header, fresh (m.readLeaf dir leaf.fileBlock .chained) = .ok (header, leaf.entries) ∧
      header.next.toNat = leaf.next

/-- What is read at the file block of a leaf of the chain: its entries and its link. -/
def LeafReads (m : Medium) (dir : Inode) (leaf : IndexLeaf) : Prop :=
  ∃ header, fresh (m.readLeaf dir leaf.fileBlock .chained) = .ok (header, leaf.entries) ∧
    header.next.toNat = leaf.next

theorem next_beq_zero {header : LeafHeader} {leaf : IndexLeaf}
    (h : header.next.toNat = leaf.next) : (header.next == 0) = true ↔ leaf.next = 0 := by
  rw [beq_iff_eq, ← h, ← UInt32.toNat_inj]
  rfl

/-- A block holds one leaf. -/
theorem LeafReads.unique {m : Medium} {dir : Inode} {leaf leaf' : IndexLeaf}
    (h : m.LeafReads dir leaf) (h' : m.LeafReads dir leaf')
    (heq : leaf.fileBlock = leaf'.fileBlock) : leaf = leaf' := by
  obtain ⟨fb, next, entries⟩ := leaf
  obtain ⟨fb', next', entries'⟩ := leaf'
  obtain ⟨header, hread, hnext⟩ := h
  obtain ⟨header', hread', hnext'⟩ := h'
  dsimp only at heq hread hread' hnext hnext'
  rw [heq, hread'] at hread
  cases hread
  rw [heq, ← hnext, ← hnext']

/-- Entries of a node and the leaves below each child: no hash below a child is above the one that
its entry holds. -/
def NodeHolds (below : Nat → List IndexLeaf → Prop) (entries : List NodeEntry)
    (groups : List (List IndexLeaf)) : Prop :=
  List.Forall₂ (fun entry group => below entry.child.toNat group ∧
    ∀ e ∈ chainEntries group, e.hash ≤ entry.hash) entries groups

/-- The leaves below block `fb` of the index, which stands at the given level. -/
def IndexBelow (m : Medium) (dir : Inode) : (level fb : Nat) → List IndexLeaf → Prop
  | 0, fb, leaves => ∃ leaf, leaf.fileBlock = fb ∧ m.IndexLeafAt dir leaf ∧ leaves = [leaf]
  | level + 1, fb, leaves => ∃ node groups,
      fresh (m.readIndexBlock dir fb none) = .ok (.node node) ∧ node.level = level + 1 ∧
      NodeHolds (m.IndexBelow dir level) node.entries groups ∧ leaves = groups.flatten

/-- Every live entry carries the hash of the name that it points at. -/
def Hashed (m : Medium) (dir : Inode) (entries : List HashEntry) : Prop :=
  ∀ e ∈ liveEntries entries, ∀ d, fresh (m.entryAt dir e.address) = .ok d →
    nameHash d.name = e.hash

def HashSorted (entries : List HashEntry) : Prop := entries.Pairwise fun a b => a.hash ≤ b.hash

/-- `leaves` are those of the well-formed index of a node directory. -/
structure HashIndex (m : Medium) (dir : Inode) (leaves : List IndexLeaf) : Prop where
  tree : ∃ level, m.IndexBelow dir level m.geometry.indexRegion leaves
  chained : Chained leaves
  sorted : HashSorted (chainEntries leaves)
  hashed : m.Hashed dir (chainEntries leaves)
  few : leaves.length ≤ m.maxLeafLinks dir

variable {m : Medium} {dir : Inode}

/-! ## Reading leaves and nodes -/

theorem fresh_readLeaf_eq_ok {fb : Nat} {kind : LeafKind} {header : LeafHeader}
    {entries : List HashEntry} :
    fresh (m.readLeaf dir fb kind) = .ok (header, entries) ↔
      ∃ block, m.dirBlock dir fb = .ok block ∧ LeafHeader.decode block = .ok header ∧
        header.kind = kind ∧ header.entries block = .ok entries := by
  rw [readLeaf, fresh_bind (m.steady_readDirBlock dir fb) fun block =>
    steady_bind (steady_liftM _) fun header => steady_guard _ fun _ =>
      steady_bind (steady_liftM _) fun _ => steady_pure _]
  simp only [fresh_liftM_bind, fresh_ite, fresh_throw_bind, fresh_pure, bind_eq_ok,
    ite_error_eq_ok, decodedIn, mapError_eq_ok, ne_eq, not_not]
  constructor
  · rintro ⟨block, hblock, found, hfound, hkind, es, hes, heq⟩
    cases heq
    exact ⟨block, hblock, hfound, hkind, hes⟩
  · rintro ⟨block, hblock, hheader, hkind, hentries⟩
    exact ⟨block, hblock, header, hheader, hkind, entries, hentries, rfl⟩

/-- A mark of a leaf of the chain. -/
def isChainedMagic (magic : UInt16) : Bool :=
  magic == LeafKind.chained.magic || magic == LeafKind.chained.magicCrc

/-- What a block of the index is, without the cache. -/
theorem fresh_readIndexBlock (fb : Nat) (expected : Option Nat) :
    fresh (m.readIndexBlock dir fb expected) = (do
      m.checkIndexRegion dir fb
      let block ← m.dirBlock dir fb
      let magic ← decodedIn dir fb (indexMagic block)
      if isChainedMagic magic then
        match expected with
        | none | some 0 => .ok .leaf
        | some (level + 1) => .error (dirFault fb (.leafAtLevel (level + 1)))
      else
        let node ← decodedIn dir fb (HashNode.decode block)
        match expected with
        | some level =>
          if node.level ≠ level then .error (dirFault fb (.nodeLevel node.level level))
          else .ok (.node node)
        | none => .ok (.node node)) := by
  cases expected with
  | none =>
    rw [readIndexBlock, fresh_liftM_bind]
    congr 1
    funext _
    rw [fresh_bind (m.steady_readDirBlock dir fb) fun block =>
      steady_bind (steady_liftM _) fun magic => steady_ite (steady_pure _)
        (steady_bind (steady_liftM _) fun _ => steady_pure _)]
    simp only [fresh_liftM_bind, fresh_ite, fresh_pure]
    rfl
  | some level =>
    have hnode (node : HashNode) : Steady m.device
        (if node.level ≠ level then
          (throw (dirFault fb (.nodeLevel node.level level)) : CacheM Unit) >>= fun _ =>
            pure (IndexBlock.node node)
        else (pure (IndexBlock.node node) : CacheM IndexBlock)) :=
      steady_guard _ fun _ => steady_pure _
    rw [readIndexBlock, fresh_liftM_bind]
    congr 1
    funext _
    refine (fresh_bind (m.steady_readDirBlock dir fb) fun block => ?_).trans ?_
    · refine steady_bind (steady_liftM _) fun magic => steady_ite ?_
        (steady_bind (steady_liftM _) hnode)
      cases level with
      | zero => exact steady_pure _
      | succ level =>
        refine steady_bind (steady_throw _) fun _ => ?_
        exact steady_bind (steady_liftM _) hnode
    · congr 1
      funext block
      rw [fresh_liftM_bind]
      congr 1
      funext magic
      refine (fresh_ite _ _).trans ?_
      have hrest : fresh (liftM (decodedIn dir fb (HashNode.decode block)) >>= fun node =>
          if node.level ≠ level then
            (throw (dirFault fb (.nodeLevel node.level level)) : CacheM Unit) >>= fun _ =>
              pure (IndexBlock.node node)
          else (pure (IndexBlock.node node) : CacheM IndexBlock)) =
          decodedIn dir fb (HashNode.decode block) >>= fun node =>
            if node.level ≠ level then .error (dirFault fb (.nodeLevel node.level level))
            else .ok (.node node) := by
        simp only [fresh_liftM_bind, fresh_ite, fresh_throw_bind, fresh_pure]
      cases level with
      | zero => exact congrArg (ite _ _) hrest
      | succ level => exact congrArg (ite _ _) hrest

theorem isChainedMagic_of_decode {block : ByteArray} {header : LeafHeader}
    (h : LeafHeader.decode block = .ok header) (hk : header.kind = .chained) :
    ∃ magic, indexMagic block = .ok magic ∧ isChainedMagic magic = true := by
  simp only [LeafHeader.decode, bind_eq_ok, throw_bind, pure_eq_ok] at h
  obtain ⟨magic, hmagic, h⟩ := h
  refine ⟨magic, hmagic, ?_⟩
  split at h
  · rename_i kind crc hof
    simp only [bind_eq_ok, ite_error_eq_ok] at h
    obtain ⟨-, -, count, -, stale, -, limit, -, -, next, -, prev, -, heq⟩ := h
    cases heq
    have hkind : kind = .chained := hk
    subst hkind
    rw [isChainedMagic]
    rw [LeafHeader.ofMagic?] at hof
    split at hof
    · cases hof
    · split at hof
      · rename_i hmark
        rw [hmark, Bool.true_or]
      · split at hof
        · cases hof
        · split at hof
          · rename_i hmark
            rw [hmark, Bool.or_true]
          · cases hof
  · cases h

theorem not_isChainedMagic_of_decode {block : ByteArray} {node : HashNode}
    (h : HashNode.decode block = .ok node) :
    ∃ magic, indexMagic block = .ok magic ∧ isChainedMagic magic = false := by
  simp only [HashNode.decode, bind_eq_ok, ite_error_eq_ok, throw_bind] at h
  obtain ⟨magic, hmagic, hknown, -⟩ := h
  refine ⟨magic, hmagic, ?_⟩
  simp only [Bool.and_eq_true, decide_eq_true_eq, not_and_or, not_not] at hknown
  rcases hknown with rfl | rfl
  · rfl
  · rfl

theorem fresh_readIndexBlock_leaf {leaf : IndexLeaf} (h : m.IndexLeafAt dir leaf)
    {expected : Option Nat} (he : expected = none ∨ expected = some 0) :
    fresh (m.readIndexBlock dir leaf.fileBlock expected) = .ok .leaf := by
  obtain ⟨hregion, header, hleaf, -⟩ := h
  obtain ⟨block, hblock, hheader, hkind, -⟩ := fresh_readLeaf_eq_ok.mp hleaf
  obtain ⟨magic, hmagic, hchained⟩ := isChainedMagic_of_decode hheader hkind
  rw [fresh_readIndexBlock, hregion, ok_bind, hblock, ok_bind, decodedIn, hmagic, mapError_ok,
    ok_bind, if_pos hchained]
  rcases he with rfl | rfl
  · rfl
  · rfl

theorem fresh_readIndexBlock_node {fb : Nat} {node : HashNode}
    (h : fresh (m.readIndexBlock dir fb none) = .ok (.node node)) :
    fresh (m.readIndexBlock dir fb (some node.level)) = .ok (.node node) ∧ node.entries ≠ [] := by
  rw [fresh_readIndexBlock] at h ⊢
  simp only [bind_eq_ok] at h
  obtain ⟨u, hregion, block, hblock, magic, hmagic, h⟩ := h
  rw [hregion, ok_bind, hblock, ok_bind, hmagic, ok_bind]
  split at h
  · cases h
  · rename_i hchained
    rw [bind_eq_ok] at h
    obtain ⟨found, hfound, h⟩ := h
    cases h
    rw [if_neg hchained, hfound, ok_bind]
    refine ⟨if_neg (fun h => h rfl), ?_⟩
    rw [decodedIn, mapError_eq_ok] at hfound
    exact HashNode.entries_ne_nil hfound

/-! ## Entering the index -/

/-- A way of choosing children, and what it says of the leaves before the one reached: the choice
names a child, and what holds of the leaves before among those below that child holds of those
before among all. -/
structure IndexChoice (pick : List NodeEntry → Option NodeEntry)
    (before : List IndexLeaf → Prop) : Prop where
  leaf : before []
  child : ∀ {below entries groups}, NodeHolds below entries groups → entries ≠ [] →
    ∃ (i : Nat) (entry : NodeEntry) (group : List IndexLeaf), pick entries = some entry ∧
      groups[i]? = some group ∧ below entry.child.toNat group ∧
      ∀ pre, before pre → before ((groups.take i).flatten ++ pre)

theorem fresh_descendIndex (pick : List NodeEntry → Option NodeEntry) (level fb : Nat) :
    fresh (m.descendIndex dir pick level fb) = (do
      match ← fresh (m.readIndexBlock dir fb (some level)) with
      | .leaf => .ok fb
      | .node n =>
        match level with
        | level + 1 =>
          match pick n.entries with
          | some child => fresh (m.descendIndex dir pick level child.child.toNat)
          | none => .error (dirFault fb .emptyNode)
        | 0 => .error (dirFault fb (.nodeLevel n.level 0))) := by
  rw [descendIndex.eq_def, fresh_bind (m.steady_readIndexBlock dir _ _) fun block => ?_]
  · congr 1
    funext block
    cases block with
    | leaf => rfl
    | node n =>
      cases level with
      | zero => rfl
      | succ level =>
        dsimp only
        cases pick n.entries with
        | none => rfl
        | some child => rfl
  · cases block with
    | leaf => exact steady_pure _
    | node n =>
      cases level with
      | zero => exact steady_throw _
      | succ level =>
        dsimp only
        cases pick n.entries with
        | none => exact steady_throw _
        | some child => exact m.steady_descendIndex dir pick _ _

theorem fresh_indexLeaf (pick : List NodeEntry → Option NodeEntry) :
    fresh (m.indexLeaf dir pick) = (do
      match ← fresh (m.readIndexBlock dir m.geometry.indexRegion none) with
      | .leaf => .ok m.geometry.indexRegion
      | .node n =>
        match pick n.entries with
        | some child => fresh (m.descendIndex dir pick (n.level - 1) child.child.toNat)
        | none => .error (dirFault m.geometry.indexRegion .emptyNode)) := by
  rw [indexLeaf, fresh_bind (m.steady_readIndexBlock dir _ _) fun block => ?_]
  · congr 1
    funext block
    cases block with
    | leaf => rfl
    | node n =>
      dsimp only
      cases pick n.entries with
      | none => rfl
      | some child => rfl
  · cases block with
    | leaf => exact steady_pure _
    | node n =>
      dsimp only
      cases pick n.entries with
      | none => exact steady_throw _
      | some child => exact m.steady_descendIndex dir pick _ _

theorem descendIndex_eq {pick : List NodeEntry → Option NodeEntry}
    {before : List IndexLeaf → Prop} (hc : IndexChoice pick before) :
    ∀ {level fb : Nat} {leaves : List IndexLeaf}, m.IndexBelow dir level fb leaves →
      ∃ pre leaf post, leaves = pre ++ leaf :: post ∧ before pre ∧
        fresh (m.descendIndex dir pick level fb) = .ok leaf.fileBlock
  | 0, fb, leaves, h => by
      obtain ⟨leaf, rfl, hleaf, rfl⟩ := h
      refine ⟨[], leaf, [], rfl, hc.leaf, ?_⟩
      rw [fresh_descendIndex, fresh_readIndexBlock_leaf hleaf (Or.inr rfl)]
      rfl
  | level + 1, fb, leaves, h => by
      obtain ⟨node, groups, hread, hlevel, hholds, rfl⟩ := h
      obtain ⟨hread, hne⟩ := fresh_readIndexBlock_node hread
      rw [hlevel] at hread
      obtain ⟨i, entry, group, hpick, hgroup, hbelow, hbefore⟩ := hc.child hholds hne
      obtain ⟨pre, leaf, post, rfl, hpre, hrun⟩ := descendIndex_eq hc hbelow
      refine ⟨(groups.take i).flatten ++ pre, leaf, post ++ (groups.drop (i + 1)).flatten, ?_,
        hbefore pre hpre, ?_⟩
      · rw [flatten_around hgroup]
        simp
      · rw [fresh_descendIndex, hread, ok_bind]
        simp only [hpick]
        exact hrun

/-- Entering a well-formed index reaches one of its leaves, where the choice says. -/
theorem indexLeaf_eq {pick : List NodeEntry → Option NodeEntry} {before : List IndexLeaf → Prop}
    (hc : IndexChoice pick before) {leaves : List IndexLeaf} (h : m.HashIndex dir leaves) :
    ∃ pre leaf post, leaves = pre ++ leaf :: post ∧ before pre ∧
      fresh (m.indexLeaf dir pick) = .ok leaf.fileBlock := by
  obtain ⟨level, htree⟩ := h.tree
  rw [fresh_indexLeaf]
  cases level with
  | zero =>
    obtain ⟨leaf, hroot, hleaf, rfl⟩ := htree
    refine ⟨[], leaf, [], rfl, hc.leaf, ?_⟩
    rw [← hroot, fresh_readIndexBlock_leaf hleaf (Or.inl rfl)]
    rfl
  | succ level =>
    obtain ⟨node, groups, hread, hlevel, hholds, rfl⟩ := htree
    obtain ⟨-, hne⟩ := fresh_readIndexBlock_node hread
    obtain ⟨i, entry, group, hpick, hgroup, hbelow, hbefore⟩ := hc.child hholds hne
    obtain ⟨pre, leaf, post, rfl, hpre, hrun⟩ := descendIndex_eq hc hbelow
    refine ⟨(groups.take i).flatten ++ pre, leaf, post ++ (groups.drop (i + 1)).flatten, ?_,
      hbefore pre hpre, ?_⟩
    · rw [flatten_around hgroup]
      simp
    · rw [hread, ok_bind]
      simp only [hpick, hlevel, Nat.add_sub_cancel]
      exact hrun

theorem indexChoice_first : IndexChoice List.head? fun pre => pre = [] where
  leaf := rfl
  child {below entries groups} hholds hne := by
    cases hholds with
    | nil => exact absurd rfl hne
    | @cons entry group entries groups hhead _ =>
      refine ⟨0, entry, group, rfl, rfl, hhead.1, ?_⟩
      rintro pre rfl
      rfl

/-- Leaves in which every hash is smaller than the given one. -/
def AllBelow (hash : UInt32) (leaves : List IndexLeaf) : Prop :=
  ∀ e ∈ chainEntries leaves, e.hash < hash

theorem childFor_spec {below : Nat → List IndexLeaf → Prop} (hash : UInt32) :
    ∀ {entries : List NodeEntry} {groups : List (List IndexLeaf)}, NodeHolds below entries groups →
      entries ≠ [] → ∃ (i : Nat) (entry : NodeEntry) (group : List IndexLeaf),
        HashNode.childFor entries hash = some entry ∧ groups[i]? = some group ∧
        below entry.child.toNat group ∧ AllBelow hash (groups.take i).flatten
  | [], _, _, hne => absurd rfl hne
  | entry :: entries, _, hholds, _ => by
      cases hholds with
      | @cons _ group _ groups hhead htail =>
      by_cases hle : hash ≤ entry.hash
      · refine ⟨0, entry, group, ?_, rfl, hhead.1, ?_⟩
        · rw [HashNode.childFor, List.find?_cons_of_pos (by simpa using hle)]
          rfl
        · intro e he
          cases he
      · have hsmall : ∀ e ∈ chainEntries group, e.hash < hash := fun e he =>
          UInt32.lt_of_le_of_lt (hhead.2 e he) (UInt32.not_le.mp hle)
        by_cases hlast : entries = []
        · subst hlast
          refine ⟨0, entry, group, ?_, rfl, hhead.1, ?_⟩
          · rw [HashNode.childFor, List.find?_cons_of_neg (by simpa using hle)]
            rfl
          · intro e he
            cases he
        · obtain ⟨i, child, g, hpick, hg, hbelow, hbefore⟩ := childFor_spec hash htail hlast
          refine ⟨i + 1, child, g, ?_, hg, hbelow, ?_⟩
          · rw [HashNode.childFor, List.find?_cons_of_neg (by simpa using hle), ← hpick,
              HashNode.childFor, List.getLast?_cons_of_ne_nil hlast]
          · intro e he
            rw [List.take_succ_cons, List.flatten_cons, chainEntries_append] at he
            rcases List.mem_append.mp he with he | he
            · exact hsmall e he
            · exact hbefore e he

theorem indexChoice_childFor (hash : UInt32) :
    IndexChoice (HashNode.childFor · hash) (AllBelow hash) where
  leaf := by
    intro e he
    cases he
  child hholds hne := by
    obtain ⟨i, entry, group, hpick, hgroup, hbelow, hbefore⟩ := childFor_spec hash hholds hne
    refine ⟨i, entry, group, hpick, hgroup, hbelow, ?_⟩
    intro pre hpre e he
    rw [chainEntries_append] at he
    rcases List.mem_append.mp he with he | he
    · exact hbefore e he
    · exact hpre e he

end Medium

end XfsVolume
