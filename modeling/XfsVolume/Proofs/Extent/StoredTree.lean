import Mathlib.Data.List.Forall2
import XfsVolume.Proofs.Device
import XfsVolume.Proofs.Extent.Order
import XfsVolume.Proofs.Partition
import XfsVolume.Proofs.Steps

/-!
# Well-formed extent trees

A tree holds the extents of its leaves, read from left to right. `LeavesBelow` says which leaves lie
below a node, by recursion on the node's level; `StoredTree` adds what ties the leaves to each other
and to the inode. Entering such a tree always reaches one of its leaves, and the choice of children
decides which: the first, the last, or one before which no extent holds the file block looked for.
-/

namespace XfsVolume

/-- A leaf as it lies on the volume, with its left link. -/
structure StoredLeaf extends TreeLeaf where
  /-- Address of the leaf before. -/
  left : Nat

def TreeLeaf.firstBlock? (leaf : TreeLeaf) : Option Nat := leaf.extents.head?.map Extent.start

/-- Leaves linked to one another in both directions, the last of which has no next one. -/
def Linked : List StoredLeaf → Prop
  | [] => True
  | [leaf] => leaf.right = nullAddress
  | a :: b :: rest => a.right = b.address ∧ b.left = a.address ∧ Linked (b :: rest)

def leafExtents (leaves : List StoredLeaf) : List Extent := leaves.flatMap (·.extents)

@[simp] theorem leafExtents_nil : leafExtents [] = [] := rfl

@[simp] theorem leafExtents_cons (leaf : StoredLeaf) (leaves : List StoredLeaf) :
    leafExtents (leaf :: leaves) = leaf.extents ++ leafExtents leaves := rfl

@[simp] theorem leafExtents_append (xs ys : List StoredLeaf) :
    leafExtents (xs ++ ys) = leafExtents xs ++ leafExtents ys := List.flatMap_append

namespace Medium

/-- The node at `address`: its block lies inside the volume and the device and decodes to `node`,
which has the header of the volume's version and stands at `level`. -/
structure NodeAt (m : Medium) (address level block : Nat) (node : TreeNode) : Prop where
  placed : m.geometry.deviceBlock address = .ok block
  inVolume : block < m.geometry.dataBlocks.toNat
  inDevice : block < m.device.blockCount
  decoded : TreeNode.decode (m.device.block block) = .ok node
  header : node.crc = m.geometry.isV5
  atLevel : node.level = level

/-- Children and the leaves below each: a key is the first file block below its child. -/
def ChildrenHold (below : Nat → List StoredLeaf → Prop) (links : List TreeLink)
    (groups : List (List StoredLeaf)) : Prop :=
  List.Forall₂ (fun link group => below link.address group ∧
    ∃ leaf ∈ group.head?, leaf.firstBlock? = some link.key) links groups

/-- The leaves below the node at `address`, which stands at the given level. -/
def LeavesBelow (m : Medium) : (level address : Nat) → List StoredLeaf → Prop
  | 0, address, leaves => ∃ block node extents, m.NodeAt address 0 block node ∧
      node.body = .leaf extents ∧
      leaves = [{ address, block, extents, right := node.right, left := node.left }]
  | level + 1, address, leaves => ∃ block node links groups,
      m.NodeAt address (level + 1) block node ∧ node.body = .interior links ∧
      ChildrenHold (m.LeavesBelow level) links groups ∧ leaves = groups.flatten

/-- `leaves` are those of the well-formed tree of `inode`. -/
structure StoredTree (m : Medium) (inode : Inode) (leaves : List StoredLeaf) : Prop where
  format : inode.format = .btree
  root : ∃ root groups, TreeRoot.decode inode.fork = .ok root ∧ root.level < maxTreeDepth ∧
    ChildrenHold (m.LeavesBelow (root.level - 1)) root.links groups ∧ leaves = groups.flatten
  /-- No block is a leaf twice. -/
  distinct : (leaves.map fun leaf => leaf.block).Nodup
  linked : Linked leaves
  inOrder : InOrder (leafExtents leaves)
  counted : inode.extents.toNat = (leafExtents leaves).length

/-! ## Reading nodes -/

theorem NodeAt.read {m : Medium} {address level block : Nat} {node : TreeNode}
    (h : m.NodeAt address level block node) (hs : m.device.Sized) :
    m.readTreeNode address level = .ok (block, node) := by
  have hblock : (decide (block ≥ m.geometry.dataBlocks.toNat) ||
      decide (block ≥ m.device.blockCount)) = false := by
    rw [Bool.or_eq_false_iff, decide_eq_false_iff_not, decide_eq_false_iff_not]
    exact ⟨Nat.not_le.mpr h.inVolume, Nat.not_le.mpr h.inDevice⟩
  rw [readTreeNode, h.placed]
  simp only [mapError_ok, ok_bind, hblock, readBlock_eq hs h.inDevice, h.decoded, h.header,
    h.atLevel, Bool.false_eq_true, if_false, ne_eq, not_true_eq_false, pure_eq_ok]

end Medium

/-! ## What a decoded node holds -/

theorem length_decodeLinks {b : ByteArray} : ∀ {n keyOff addressOff : Nat} {links : List TreeLink},
    decodeLinks b keyOff addressOff n = .ok links → links.length = n
  | 0, _, _, links, h => by
      cases h
      rfl
  | n + 1, keyOff, addressOff, links, h => by
      rw [decodeLinks] at h
      simp only [bind_eq_ok, pure_eq_ok] at h
      obtain ⟨key, -, address, -, rest, hrest, heq⟩ := h
      cases heq
      rw [List.length_cons, length_decodeLinks hrest]

theorem length_sortedLinks {b : ByteArray} {keyOff addressOff n : Nat} {links : List TreeLink}
    (h : sortedLinks b keyOff addressOff n = .ok links) : links.length = n := by
  simp only [sortedLinks, bind_eq_ok] at h
  obtain ⟨found, hfound, h⟩ := h
  split at h
  · cases h
    exact length_decodeLinks hfound
  · cases h

theorem ne_zero_of_checkRecordCount {count limit : Nat} {u : Unit}
    (h : checkRecordCount count limit = .ok u) : count ≠ 0 ∧ count ≤ limit := by
  rw [checkRecordCount, ite_error_eq_ok, Bool.or_eq_true, decide_eq_true_eq, decide_eq_true_eq] at h
  omega

theorem TreeRoot.links_ne_nil {fork : ByteArray} {root : TreeRoot}
    (h : TreeRoot.decode fork = .ok root) : root.links ≠ [] := by
  simp only [TreeRoot.decode, bind_eq_ok, ite_error_eq_ok, throw_bind, pure_eq_ok] at h
  obtain ⟨level, -, count, -, -, u, hcount, links, hlinks, heq⟩ := h
  cases heq
  have hne := (ne_zero_of_checkRecordCount hcount).1
  have hlen := length_sortedLinks hlinks
  intro hnil
  have hnil : links = [] := hnil
  rw [hnil, List.length_nil] at hlen
  omega

theorem level_pos {level : UInt16} (h : ¬ (level == 0) = true) : 0 < level.toNat := by
  rw [Nat.pos_iff_ne_zero]
  intro hzero
  exact h (beq_iff_eq.mpr (UInt16.toNat_inj.mp hzero))

theorem TreeRoot.level_pos_of_decode {fork : ByteArray} {root : TreeRoot}
    (h : TreeRoot.decode fork = .ok root) : 0 < root.level := by
  simp only [TreeRoot.decode, bind_eq_ok, ite_error_eq_ok, throw_bind, pure_eq_ok] at h
  obtain ⟨level, -, count, -, hlevel, u, -, links, -, heq⟩ := h
  cases heq
  exact level_pos hlevel

theorem TreeNode.body_of_decode {block : ByteArray} {node : TreeNode}
    (h : TreeNode.decode block = .ok node) :
    (∀ extents, node.body = .leaf extents → extents ≠ [] ∧ ∀ e ∈ extents, e.Fits) ∧
      ∀ links, node.body = .interior links → links ≠ [] := by
  simp only [TreeNode.decode, bind_eq_ok, ite_error_eq_ok, throw_bind, pure_eq_ok] at h
  obtain ⟨magic, -, -, level, -, count, -, left, -, right, -, u, hcount, h⟩ := h
  have hne := (ne_zero_of_checkRecordCount hcount).1
  split at h
  · simp only [bind_eq_ok, map_eq_ok] at h
    obtain ⟨body, ⟨extents, hextents, rfl⟩, heq⟩ := h
    cases heq
    obtain ⟨hlen, hfit⟩ := Extent.decodeList_spec hextents
    refine ⟨?_, by intro links hl; cases hl⟩
    intro es hes
    cases hes
    refine ⟨?_, hfit⟩
    rintro rfl
    rw [List.length_nil] at hlen
    omega
  · simp only [bind_eq_ok, map_eq_ok] at h
    obtain ⟨body, ⟨links, hlinks, rfl⟩, heq⟩ := h
    cases heq
    refine ⟨(by intro extents he; cases he), ?_⟩
    intro ls hls
    cases hls
    have hlen := length_sortedLinks hlinks
    rintro rfl
    rw [List.length_nil] at hlen
    omega

theorem TreeNode.level_pos_of_decode {block : ByteArray} {node : TreeNode}
    {links : List TreeLink} (h : TreeNode.decode block = .ok node)
    (hbody : node.body = .interior links) : 0 < node.level := by
  simp only [TreeNode.decode, bind_eq_ok, ite_error_eq_ok, throw_bind, pure_eq_ok] at h
  obtain ⟨magic, -, -, level, -, count, -, left, -, right, -, u, -, h⟩ := h
  split at h
  · simp only [bind_eq_ok, map_eq_ok] at h
    obtain ⟨body, ⟨extents, -, rfl⟩, heq⟩ := h
    cases heq
    cases hbody
  · rename_i hlevel
    simp only [bind_eq_ok] at h
    obtain ⟨body, -, heq⟩ := h
    cases heq
    exact level_pos hlevel

namespace Medium

/-! ## Leaves below a node -/

/-- A leaf of the volume: its block decodes to its extents and links. -/
def LeafAt (m : Medium) (leaf : StoredLeaf) : Prop :=
  ∃ node, m.NodeAt leaf.address 0 leaf.block node ∧ node.body = .leaf leaf.extents ∧
    node.right = leaf.right ∧ node.left = leaf.left

theorem LeafAt.extents_ne_nil {m : Medium} {leaf : StoredLeaf} (h : m.LeafAt leaf) :
    leaf.extents ≠ [] := by
  obtain ⟨node, hnode, hbody, -, -⟩ := h
  exact ((TreeNode.body_of_decode hnode.decoded).1 _ hbody).1

theorem ChildrenHold.mem_flatten {below : Nat → List StoredLeaf → Prop} {links : List TreeLink}
    {groups : List (List StoredLeaf)} (h : ChildrenHold below links groups) {leaf : StoredLeaf}
    (hl : leaf ∈ groups.flatten) : ∃ link ∈ links, ∃ group ∈ groups,
      below link.address group ∧ leaf ∈ group := by
  induction h with
  | nil => cases hl
  | @cons link group links groups hhead _ ih =>
    rw [List.flatten_cons] at hl
    rcases List.mem_append.mp hl with hl | hl
    · exact ⟨link, List.mem_cons_self, group, List.mem_cons_self, hhead.1, hl⟩
    · obtain ⟨k, hk, g, hg, hb, hin⟩ := ih hl
      exact ⟨k, List.mem_cons_of_mem _ hk, g, List.mem_cons_of_mem _ hg, hb, hin⟩

theorem leafAt_of_leavesBelow {m : Medium} : ∀ {level address : Nat} {leaves : List StoredLeaf},
    m.LeavesBelow level address leaves → ∀ leaf ∈ leaves, m.LeafAt leaf
  | 0, address, leaves, h, leaf, hl => by
      obtain ⟨block, node, extents, hnode, hbody, rfl⟩ := h
      rw [List.mem_singleton] at hl
      subst hl
      exact ⟨node, hnode, hbody, rfl, rfl⟩
  | level + 1, address, leaves, h, leaf, hl => by
      obtain ⟨block, node, links, groups, -, -, hchildren, rfl⟩ := h
      obtain ⟨link, -, group, -, hbelow, hin⟩ := hchildren.mem_flatten hl
      exact leafAt_of_leavesBelow hbelow leaf hin

theorem StoredTree.leafAt {m : Medium} {inode : Inode} {leaves : List StoredLeaf}
    (h : m.StoredTree inode leaves) : ∀ leaf ∈ leaves, m.LeafAt leaf := by
  obtain ⟨root, groups, -, -, hchildren, rfl⟩ := h.root
  intro leaf hl
  obtain ⟨link, -, group, -, hbelow, hin⟩ := hchildren.mem_flatten hl
  exact leafAt_of_leavesBelow hbelow leaf hin

/-! ## Entering a tree -/

/-- A way of choosing children, and what it says of the leaf reached among all leaves: the choice
names a child, and what holds of the leaf among those below that child holds of it among all. -/
structure Choice (pick : List Nat → Nat) (reached : List StoredLeaf → StoredLeaf →
    List StoredLeaf → Prop) : Prop where
  leaf : ∀ leaf, reached [] leaf []
  names : ∀ {links : List TreeLink}, links ≠ [] → pick (links.map TreeLink.key) < links.length
  step : ∀ {below links groups} {pre post : List StoredLeaf} {leaf : StoredLeaf} {i : Nat},
    ChildrenHold below links groups → pick (links.map TreeLink.key) = i →
    groups[i]? = some (pre ++ leaf :: post) → reached pre leaf post →
    reached ((groups.take i).flatten ++ pre) leaf (post ++ (groups.drop (i + 1)).flatten)

/-- The child that a choice names, the leaves below it, and those on either side. -/
theorem Choice.child {pick : List Nat → Nat} {reached : List StoredLeaf → StoredLeaf →
    List StoredLeaf → Prop} (hc : Choice pick reached) {below : Nat → List StoredLeaf → Prop}
    {links : List TreeLink} {groups : List (List StoredLeaf)} (hne : links ≠ [])
    (h : ChildrenHold below links groups) :
    ∃ link group, links[pick (links.map TreeLink.key)]? = some link ∧
      groups[pick (links.map TreeLink.key)]? = some group ∧ below link.address group := by
  have hi := hc.names hne
  have hg : pick (links.map TreeLink.key) < groups.length := by
    rw [← List.Forall₂.length_eq h]
    exact hi
  refine ⟨_, _, List.getElem?_eq_getElem hi, List.getElem?_eq_getElem hg, ?_⟩
  exact ((List.forall₂_iff_get.mp h).2 _ hi hg).1

theorem flatten_around {α : Type} {groups : List (List α)} {i : Nat} {group : List α}
    (h : groups[i]? = some group) :
    groups.flatten = (groups.take i).flatten ++ (group ++ (groups.drop (i + 1)).flatten) := by
  obtain ⟨hi, rfl⟩ := List.getElem?_eq_some_iff.mp h
  rw [← List.flatten_cons, List.getElem_cons_drop, ← List.flatten_append, List.take_append_drop]

theorem descendTree_eq {m : Medium} (hs : m.device.Sized) {pick : List Nat → Nat}
    {reached : List StoredLeaf → StoredLeaf → List StoredLeaf → Prop} (hc : Choice pick reached) :
    ∀ {level address : Nat} {leaves : List StoredLeaf}, m.LeavesBelow level address leaves →
      ∃ pre leaf post, leaves = pre ++ leaf :: post ∧ reached pre leaf post ∧
        m.descendTree pick level address = .ok leaf.toTreeLeaf
  | 0, address, leaves, h => by
      obtain ⟨block, node, extents, hnode, hbody, rfl⟩ := h
      refine ⟨[], _, [], rfl, hc.leaf _, ?_⟩
      rw [descendTree, hnode.read hs, ok_bind]
      simp only [hbody, pure_eq_ok]
  | level + 1, address, leaves, h => by
      obtain ⟨block, node, links, groups, hnode, hbody, hchildren, rfl⟩ := h
      have hne := (TreeNode.body_of_decode hnode.decoded).2 links hbody
      obtain ⟨link, group, hlink, hgroup, hbelow⟩ := hc.child hne hchildren
      obtain ⟨pre, leaf, post, rfl, hreached, hrun⟩ := descendTree_eq hs hc hbelow
      refine ⟨_, leaf, _, ?_, hc.step hchildren rfl hgroup hreached, ?_⟩
      · rw [flatten_around hgroup]
        simp
      · rw [descendTree, hnode.read hs, ok_bind]
        simp only [hbody, hlink]
        exact hrun

theorem entryLeaf_eq {m : Medium} (hs : m.device.Sized) {pick : List Nat → Nat}
    {reached : List StoredLeaf → StoredLeaf → List StoredLeaf → Prop} (hc : Choice pick reached)
    {inode : Inode} {leaves : List StoredLeaf} (h : m.StoredTree inode leaves) :
    ∃ pre leaf post, leaves = pre ++ leaf :: post ∧ reached pre leaf post ∧
      m.entryLeaf inode pick = .ok leaf.toTreeLeaf := by
  obtain ⟨root, groups, hroot, hlevel, hchildren, rfl⟩ := h.root
  obtain ⟨link, group, hlink, hgroup, hbelow⟩ := hc.child (TreeRoot.links_ne_nil hroot) hchildren
  obtain ⟨pre, leaf, post, rfl, hreached, hrun⟩ := descendTree_eq hs hc hbelow
  refine ⟨_, leaf, _, ?_, hc.step hchildren rfl hgroup hreached, ?_⟩
  · rw [flatten_around hgroup]
    simp
  · have htree : inode.treeRoot = .ok root := by
      rw [Inode.treeRoot, hroot, mapError_ok, ok_bind, if_neg (Nat.not_le.mpr hlevel)]
      rfl
    rw [entryLeaf, htree, ok_bind]
    simp only [hlink]
    exact hrun

theorem choice_first : Choice (fun _ => 0) fun pre _ _ => pre = [] where
  leaf _ := rfl
  names h := List.length_pos_iff.mpr h
  step _ hi _ hpre := by
    subst hi hpre
    rfl

theorem choice_last : Choice (fun keys => keys.length - 1) fun _ _ post => post = [] where
  leaf _ := rfl
  names h := by
    have := List.length_pos_iff.mpr h
    rw [List.length_map]
    omega
  step hchildren hi _ hpost := by
    have hlen := List.Forall₂.length_eq hchildren
    subst hi hpost
    rw [List.length_map, List.drop_eq_nil_of_le (by omega)]
    rfl

theorem childIndex_spec (keys : List Nat) (target : Nat) :
    childIndex keys target = 0 ∨ ∃ key, keys[childIndex keys target]? = some key ∧ key ≤ target := by
  rcases partitionPoint_eq_zero_or (· ≤ target) keys with hzero | ⟨key, hkey, hle⟩
  · exact Or.inl (by rw [childIndex, hzero])
  · exact Or.inr ⟨key, hkey, of_decide_eq_true hle⟩

theorem choice_childIndex (logical : Nat) : Choice (childIndex · logical) fun pre leaf _ =>
    pre = [] ∨ ∃ start, leaf.firstBlock? = some start ∧ start ≤ logical where
  leaf _ := Or.inl rfl
  names {links} h := by
    have hpos := List.length_pos_iff.mpr h
    have hle := partitionPoint_le_length (· ≤ logical) (links.map TreeLink.key)
    rw [List.length_map] at hle
    simp only [childIndex]
    omega
  step {below links groups pre post leaf i} hchildren hi hgroup hreached := by
    rcases hreached with rfl | hreached
    · obtain ⟨hg, hget⟩ := List.getElem?_eq_some_iff.mp hgroup
      have hl : i < links.length := by
        rw [List.Forall₂.length_eq hchildren]
        exact hg
      obtain ⟨first, hfirst, hkey⟩ := ((List.forall₂_iff_get.mp hchildren).2 i hl hg).2
      rw [List.get_eq_getElem, hget] at hfirst
      cases hfirst
      rcases childIndex_spec (links.map TreeLink.key) logical with hz | ⟨key, hk, hle⟩
      · rw [hz] at hi
        subst hi
        exact Or.inl rfl
      · refine Or.inr ⟨key, ?_, hle⟩
        rw [hi, List.getElem?_map, List.getElem?_eq_getElem hl] at hk
        cases hk
        exact hkey
    · exact Or.inr hreached

end Medium

theorem Geometry.deviceBlock_null (geo : Geometry) {block : Nat} :
    geo.deviceBlock nullAddress ≠ .ok block := by
  have hcount := geo.agCount.toNat_lt
  have hblocks := geo.agBlocks.toNat_lt
  intro h
  rw [deviceBlock] at h
  simp only [Nat.shiftRight_eq_div_pow, Nat.one_shiftLeft] at h
  split at h
  · cases h
  · rename_i hag
    split at h
    · cases h
    · rename_i hblock
      by_cases hlog : geo.agBlockLog.toNat ≤ 32
      · have hpow : 2 ^ geo.agBlockLog.toNat ≤ 2 ^ 32 := Nat.pow_le_pow_right (by decide) hlog
        have hdiv : nullAddress / 2 ^ 32 ≤ nullAddress / 2 ^ geo.agBlockLog.toNat :=
          Nat.div_le_div_left hpow (Nat.two_pow_pos _)
        have hnull : nullAddress / 2 ^ 32 = 2 ^ 32 - 1 := by decide
        omega
      · have hpow : 2 ^ 33 ≤ 2 ^ geo.agBlockLog.toNat := Nat.pow_le_pow_right (by decide) (by omega)
        have hmod : nullAddress % 2 ^ 33 = 2 ^ 33 - 1 := by decide
        have hdvd : (2 : Nat) ^ 33 ∣ 2 ^ geo.agBlockLog.toNat := Nat.pow_dvd_pow 2 (by omega)
        have hle : nullAddress % 2 ^ 33 ≤ nullAddress % 2 ^ geo.agBlockLog.toNat := by
          rw [← Nat.mod_mod_of_dvd _ hdvd]
          exact Nat.mod_le _ _
        omega

end XfsVolume
