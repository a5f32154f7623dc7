import Mathlib.Data.List.Flatten
import Mathlib.Data.List.Perm.Basic
import XfsVolume.Proofs.Extent.StoredTree
import XfsVolume.Proofs.Image.Frames
import XfsVolume.Proofs.Image.TreeNodes

/-!
# Parts of a tree on a volume that is being built

A node of an extent tree is a block that was handed out and decodes to it (`Builder.NodeAt`), and
what lies below a link is the leaves that it leads to and the blocks of all nodes on the way
(`Builder.TreeBelow`). A level of a tree is a list of links with the part below each
(`Builder.LevelStands`). What was written so is not changed by steps that take other blocks, and
the blocks of a tree are those that were taken for it (`Builder.TakenSince`).
-/

namespace XfsVolume

namespace Medium

/-! ## Children -/

section

variable {below : Nat → List StoredLeaf → Prop} {links : List TreeLink}
  {groups : List (List StoredLeaf)}

/-- Extents below a child start at its key. -/
theorem ChildrenHold.first {link : TreeLink} (h : ChildrenHold below (link :: links) groups) :
    ∃ leaf ∈ groups.flatten.head?, leaf.firstBlock? = some link.key := by
  cases h with
  | @cons _ group _ groups hhead _ =>
    obtain ⟨-, leaf, hleaf, hkey⟩ := hhead
    obtain ⟨rest, rfl⟩ : ∃ rest, group = leaf :: rest := by
      cases group with
      | nil => cases hleaf
      | cons first rest =>
        cases hleaf
        exact ⟨rest, rfl⟩
    exact ⟨leaf, rfl, hkey⟩

theorem ChildrenHold.firstExtent {link : TreeLink}
    (h : ChildrenHold below (link :: links) groups) :
    ∃ e rest, leafExtents groups.flatten = e :: rest ∧ e.start = link.key := by
  obtain ⟨leaf, hleaf, hkey⟩ := h.first
  obtain ⟨rest, hrest⟩ := List.head?_eq_some_iff.mp hleaf
  rw [TreeLeaf.firstBlock?, Option.map_eq_some_iff] at hkey
  obtain ⟨e, he, hstart⟩ := hkey
  obtain ⟨more, hmore⟩ := List.head?_eq_some_iff.mp he
  refine ⟨e, more ++ leafExtents rest, ?_, hstart⟩
  rw [hrest, leafExtents_cons, hmore, List.cons_append]

theorem ChildrenHold.key_mem (h : ChildrenHold below links groups) :
    ∀ link ∈ links, ∃ e ∈ leafExtents groups.flatten, e.start = link.key := by
  induction h with
  | nil => simp
  | @cons link group links groups hhead hrest ih =>
    intro l hl
    rcases List.mem_cons.mp hl with rfl | hl
    · obtain ⟨e, rest, hall, hkey⟩ := ChildrenHold.firstExtent (.cons hhead hrest)
      exact ⟨e, by rw [hall]; exact List.mem_cons_self, hkey⟩
    · obtain ⟨e, he, hkey⟩ := ih l hl
      rw [List.flatten_cons, leafExtents_append]
      exact ⟨e, List.mem_append_right _ he, hkey⟩

/-- The keys of children over extents in order increase. -/
theorem ChildrenHold.increasing (h : ChildrenHold below links groups)
    (ho : InOrder (leafExtents groups.flatten)) :
    XfsVolume.increasing (links.map TreeLink.key) = true := by
  induction h with
  | nil => rfl
  | @cons link group links groups hhead hrest ih =>
    rw [List.flatten_cons, leafExtents_append] at ho
    cases hrest with
    | nil => rfl
    | @cons next nextGroup links groups hnext hrest =>
      have hsingle : ChildrenHold below [link] [group] := .cons hhead .nil
      obtain ⟨a, as, has, hakey⟩ := hsingle.firstExtent
      obtain ⟨c, cs, hcs, hckey⟩ := ChildrenHold.firstExtent (.cons hnext hrest)
      rw [List.flatten_singleton] at has
      have hbefore := (List.pairwise_append.mp ho.disjoint).2.2 a
        (by rw [has]; exact List.mem_cons_self) c (by rw [hcs]; exact List.mem_cons_self)
      have hpos := ho.nonempty a (List.mem_append_left _ (by rw [has]; exact List.mem_cons_self))
      show (decide (link.key < next.key) && XfsVolume.increasing _) = true
      rw [Bool.and_eq_true, decide_eq_true_eq]
      exact ⟨by omega, ih ho.right⟩

end

end Medium

/-! ## Blocks of a volume that is being built -/

namespace ImageOptions

variable {o : ImageOptions}

/-- Addresses of blocks fit the fields that hold them. -/
def AddressesFit (o : ImageOptions) : Prop :=
  ∀ {address ag agBlock : Nat}, o.Run address 1 ag agBlock → address < 2 ^ 64

/-- Addresses fit where groups and the blocks of a group are counted in 32 bits. -/
theorem addressesFit_of_lt (hblocks : o.agBlocks < 2 ^ 32) (hcount : o.agCount < 2 ^ 32) :
    o.AddressesFit := by
  intro address ag agBlock hrun
  have hlt := hrun.address_lt_mul Nat.one_pos
  have hlog : o.agBlockLog ≤ 32 := ceilLog2_le (Nat.le_of_lt hblocks)
  have hmul : o.agCount * 2 ^ o.agBlockLog ≤ 2 ^ 32 * 2 ^ 32 :=
    Nat.mul_le_mul (Nat.le_of_lt hcount) (Nat.pow_le_pow_right (by decide) hlog)
  omega

/-- Blocks with no byte in common. -/
def BlocksApart (o : ImageOptions) (addresses : List Nat) : Prop :=
  addresses.Pairwise fun a c => ∀ {i}, o.InBlocks a 1 i → ¬ o.InBlocks c 1 i

/-- No two blocks apart from one another are the same. -/
theorem BlocksApart.nodup {addresses : List Nat} (h : o.BlocksApart addresses) :
    (addresses.map fun a => o.blockOffset a / imageBlockSize).Nodup := by
  rw [List.Nodup, List.pairwise_map]
  refine List.Pairwise.imp ?_ h
  intro a c hapart heq
  have hwhole (address : Nat) :
      o.blockOffset address / imageBlockSize * imageBlockSize = o.blockOffset address := by
    rw [ImageOptions.blockOffset, Nat.mul_div_cancel _ (by decide)]
  have hsame : o.blockOffset a = o.blockOffset c := by
    rw [← hwhole a, heq, hwhole]
  have hin : o.InBlocks a 1 (o.blockOffset a) :=
    ⟨Nat.le_refl _, Nat.lt_add_of_pos_right (by decide)⟩
  refine hapart hin ?_
  rw [ImageOptions.InBlocks, ← hsame]
  exact hin

end ImageOptions

namespace Builder

variable {start b b' : Builder}

def block (b : Builder) (address : Nat) : ByteArray :=
  window b.image (b.options.blockOffset address) imageBlockSize

theorem size_block {address ag agBlock : Nat} (hb : b.Sound)
    (hrun : b.options.Run address 1 ag agBlock) : (b.block address).size = imageBlockSize := by
  have hin := hrun.bytes_le Nat.one_pos
  rw [← hb.size, Nat.one_mul] at hin
  exact size_window_of_le hin

/-- A block that was handed out stays as it is, unless it was given to be written. -/
theorem Grows.block_eq {spare : Nat → Prop} {address ag agBlock : Nat} (h : b.Grows spare b')
    (hb : b.Sound) (hb' : b'.Sound) (hrun : b.options.Run address 1 ag agBlock)
    (hown : ∀ {i}, b.options.InBlocks address 1 i → b.Owns i ∧ ¬ spare i) :
    b'.block address = b.block address := by
  have hrun' := hrun
  rw [← h.options] at hrun'
  refine bytes_ext ((size_block hb' hrun').trans (size_block hb hrun).symm) fun i hi => ?_
  rw [size_block hb' hrun'] at hi
  obtain ⟨howned, hspare⟩ :=
    hown (i := b.options.blockOffset address + i) ⟨by omega, by omega⟩
  rw [block, block, byteAt_window hi, byteAt_window hi, h.options]
  exact h.keeps (Or.inl howned) hspare

/-- The blocks at `addresses` are those taken since `start`: none was handed out then, all are
handed out now, and no two have a byte in common. -/
structure TakenSince (start : Builder) (addresses : List Nat) (b : Builder) : Prop where
  count : b.taken = start.taken + addresses.length
  apart : start.options.BlocksApart addresses
  fresh : ∀ a ∈ addresses, ∀ {i}, start.options.InBlocks a 1 i → ¬ start.Owns i ∧ b.Owns i

theorem GainedAll.takenSince {addresses : List Nat} (h : b.GainedAll addresses b')
    (hb : b.Sound) : b.TakenSince addresses b' where
  count := (h.sound hb).2.2
  apart := h.apart
  fresh a ha := (h.block a ha).2

theorem TakenSince.perm {addresses others : List Nat} (h : start.TakenSince addresses b)
    (hperm : others.Perm addresses) : start.TakenSince others b where
  count := by rw [hperm.length_eq, h.count]
  apart := by
    refine (hperm.pairwise_iff ?_).mpr h.apart
    intro a c hac i hc ha
    exact hac ha hc
  fresh a ha := h.fresh a (hperm.mem_iff.mp ha)

/-- Blocks taken after others are apart from them. -/
theorem TakenSince.append {spare : Nat → Prop} {addresses others : List Nat}
    (h : start.TakenSince addresses b) (hstart : start.Grows spare b)
    (h' : b.TakenSince others b') (hg : b.Grows spare b') :
    start.TakenSince (others ++ addresses) b' where
  count := by
    rw [h'.count, h.count, List.length_append]
    omega
  apart := by
    have hothers := h'.apart
    have hfresh := h'.fresh
    rw [hstart.options] at hothers hfresh
    refine List.pairwise_append.mpr ⟨hothers, h.apart, fun a ha c hc i hia hic => ?_⟩
    exact (hfresh a ha hia).1 (h.fresh c hc hic).2
  fresh a ha i hi := by
    rcases List.mem_append.mp ha with ha | ha
    · rw [← hstart.options] at hi
      obtain ⟨hfree, howned⟩ := h'.fresh a ha hi
      exact ⟨fun hown => hfree (hstart.owns hown), howned⟩
    · obtain ⟨hfree, howned⟩ := h.fresh a ha hi
      exact ⟨hfree, hg.owns howned⟩

/-! ## Parts of a tree -/

/-- The node at `address`, which stands at `level`: its block was handed out and decodes to `node`,
which has the header of the volume's version. -/
structure NodeAt (b : Builder) (address level : Nat) (node : TreeNode) : Prop where
  placed : ∃ ag agBlock, b.options.Run address 1 ag agBlock
  owned : ∀ {i}, b.options.InBlocks address 1 i → b.Owns i
  decoded : TreeNode.decode (b.block address) = .ok node
  header : node.crc = b.options.isV5
  atLevel : node.level = level

theorem NodeAt.grows {address level : Nat} {node : TreeNode} (h : b.NodeAt address level node)
    (hg : b.Grows (fun _ => False) b') (hb : b.Sound) (hb' : b'.Sound) :
    b'.NodeAt address level node := by
  obtain ⟨ag, agBlock, hrun⟩ := h.placed
  have hblock := hg.block_eq hb hb' hrun fun hi => ⟨h.owned hi, id⟩
  refine ⟨⟨ag, agBlock, ?_⟩, fun {i} hi => ?_, ?_, ?_, h.atLevel⟩
  · rwa [hg.options]
  · rw [hg.options] at hi
    exact hg.owns (h.owned hi)
  · rw [hblock]
    exact h.decoded
  · rw [hg.options]
    exact h.header

end Builder

/-- What lies below a link of a tree. -/
structure TreePart where
  leaves : List StoredLeaf
  /-- Addresses of the nodes, each before those below it. -/
  blocks : List Nat

namespace TreePart

def allLeaves (parts : List TreePart) : List StoredLeaf := parts.flatMap leaves

def allBlocks (parts : List TreePart) : List Nat := parts.flatMap blocks

def node (address : Nat) (parts : List TreePart) : TreePart where
  leaves := allLeaves parts
  blocks := address :: allBlocks parts

end TreePart

/-- Links and the part of the tree below each: a key is the first file block below its link. -/
def PartsHold (below : Nat → TreePart → Prop) (links : List TreeLink) (parts : List TreePart) :
    Prop :=
  List.Forall₂ (fun link part => below link.address part ∧
    ∃ leaf ∈ part.leaves.head?, leaf.firstBlock? = some link.key) links parts

namespace Builder

variable {start b b' : Builder}

/-- `part` is the tree whose topmost node is at `address` and stands at the given level. -/
def TreeBelow (b : Builder) : (level address : Nat) → TreePart → Prop
  | 0, address, part => ∃ node extents, b.NodeAt address 0 node ∧ node.body = .leaf extents ∧
      part.leaves = [{ address, block := b.options.blockOffset address / imageBlockSize, extents,
                       right := node.right, left := node.left }] ∧
      part.blocks = [address]
  | level + 1, address, part => ∃ node links parts, b.NodeAt address (level + 1) node ∧
      node.body = .interior links ∧ PartsHold (b.TreeBelow level) links parts ∧
      part = .node address parts

/-- What was written stays below its link. -/
theorem TreeBelow.grows (hg : b.Grows (fun _ => False) b') (hb : b.Sound) (hb' : b'.Sound) :
    ∀ {level address : Nat} {part : TreePart}, b.TreeBelow level address part →
      b'.TreeBelow level address part
  | 0, _, _, ⟨node, extents, hnode, hbody, hleaves, hblocks⟩ => by
      refine ⟨node, extents, hnode.grows hg hb hb', hbody, ?_, hblocks⟩
      rw [hleaves, hg.options]
  | level + 1, _, _, ⟨node, links, parts, hnode, hbody, hparts, hpart⟩ => by
      refine ⟨node, links, parts, hnode.grows hg hb hb', hbody, hparts.imp ?_, hpart⟩
      rintro link part ⟨hbelow, hkey⟩
      exact ⟨TreeBelow.grows hg hb hb' hbelow, hkey⟩

end Builder

namespace TreePart

variable {α : Type} {places : List α} {chunks : List (List TreePart)}

theorem allLeaves_flatten (chunks : List (List TreePart)) :
    allLeaves chunks.flatten = chunks.flatMap allLeaves := by
  rw [allLeaves, ← List.flatMap_id, List.flatMap_assoc]
  rfl

theorem allBlocks_flatten (chunks : List (List TreePart)) :
    allBlocks chunks.flatten = chunks.flatMap allBlocks := by
  rw [allBlocks, ← List.flatMap_id, List.flatMap_assoc]
  rfl

/-- Nodes over parts have the leaves of the parts below them. -/
theorem allLeaves_nodes (address : α → Nat) (hlength : places.length = chunks.length) :
    allLeaves ((places.zip chunks).map fun x => node (address x.1) x.2) =
      allLeaves chunks.flatten := by
  rw [allLeaves_flatten, allLeaves, List.flatMap_map]
  exact flatMap_zip_right allLeaves hlength

/-- Nodes over parts add their own blocks to those of the parts. -/
theorem allBlocks_nodes (address : α → Nat) (hlength : places.length = chunks.length) :
    (allBlocks ((places.zip chunks).map fun x => node (address x.1) x.2)).Perm
      (places.map address ++ allBlocks chunks.flatten) := by
  rw [allBlocks_flatten, allBlocks, List.flatMap_map]
  exact flatMap_zip_perm address allBlocks hlength

end TreePart

/-! ## Levels -/

section

variable {below : Nat → TreePart → Prop} {links : List TreeLink} {parts : List TreePart}

theorem PartsHold.leavesHold (h : PartsHold below links parts) :
    Medium.ChildrenHold (fun address leaves => ∃ part, below address part ∧ part.leaves = leaves)
      links (parts.map TreePart.leaves) := by
  rw [Medium.ChildrenHold, List.forall₂_map_right_iff]
  refine h.imp ?_
  rintro link part ⟨hbelow, hkey⟩
  exact ⟨⟨part, hbelow, rfl⟩, hkey⟩

theorem PartsHold.first {link : TreeLink} (h : PartsHold below (link :: links) parts) :
    ∃ leaf ∈ (TreePart.allLeaves parts).head?, leaf.firstBlock? = some link.key :=
  h.leavesHold.first

end

namespace Builder

variable {start b b' : Builder}

/-- A level of a tree over extents in order. -/
structure LevelStands (b : Builder) (level : Nat) (links : List TreeLink)
    (parts : List TreePart) : Prop where
  children : PartsHold (b.TreeBelow level) links parts
  inOrder : InOrder (leafExtents (TreePart.allLeaves parts))
  addresses : ∀ link ∈ links, link.address < 2 ^ 64
  nonempty : links ≠ []

namespace LevelStands

variable {level : Nat} {links : List TreeLink} {parts : List TreePart}

theorem lt (h : b.LevelStands level links parts) :
    ∀ link ∈ links, link.key < 2 ^ 64 ∧ link.address < 2 ^ 64 := by
  intro link hin
  obtain ⟨e, he, hkey⟩ := h.children.leavesHold.key_mem link hin
  have hstart := (h.inOrder.fits e he).start
  rw [startBits] at hstart
  exact ⟨by omega, h.addresses link hin⟩

theorem increasing (h : b.LevelStands level links parts) :
    XfsVolume.increasing (links.map TreeLink.key) = true :=
  h.children.leavesHold.increasing h.inOrder

theorem grows (h : b.LevelStands level links parts) (hg : b.Grows (fun _ => False) b')
    (hb : b.Sound) (hb' : b'.Sound) : b'.LevelStands level links parts where
  children := h.children.imp fun _ _ hpart => ⟨hpart.1.grows hg hb hb', hpart.2⟩
  inOrder := h.inOrder
  addresses := h.addresses
  nonempty := h.nonempty

/-- A chunk of a level is one itself. -/
theorem chunk {n : Nat} (hn : 0 < n) (h : b.LevelStands level links parts)
    {chunk : List TreeLink} {group : List TreePart} (hchunk : chunk ∈ chunksOf n links)
    (hgroup : group ∈ chunksOf n parts) (hparts : PartsHold (b.TreeBelow level) chunk group) :
    b.LevelStands level chunk group where
  children := hparts
  inOrder := by
    apply h.inOrder.sublist
    rw [← flatten_chunksOf hn parts, TreePart.allLeaves_flatten, List.flatMap_def]
    exact (List.sublist_flatten_of_mem (List.mem_map_of_mem hgroup)).flatMap _
  addresses link hin := by
    apply h.addresses
    rw [← flatten_chunksOf hn links]
    exact List.mem_flatten_of_mem hchunk hin
  nonempty := List.length_pos_iff.mp (length_of_mem_chunksOf links chunk hchunk).1

end LevelStands


end Builder

end XfsVolume
