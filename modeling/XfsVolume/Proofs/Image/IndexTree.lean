import Mathlib.Data.List.Flatten
import XfsVolume.Proofs.Directory.HashIndex
import XfsVolume.Proofs.Image.IndexLevels

/-!
# The tree of an index that was written

A leaf of an index is a block that decodes to it (`PlacedBlocks.LeafAt`), and what lies below a
block is the leaves that decoding leads to from there, and the file blocks of all nodes and leaves
on the way (`PlacedBlocks.Below`). A level is a list of children with the part of the index below
each, and a child carries the last hash below it (`PlacedBlocks.ChildrenHold`); writing nodes over a
level gives the same for the level above, up to the root. A reader that finds the blocks where they
were placed then finds a well-formed index.
-/

namespace XfsVolume

/-! ## Decoded blocks -/

/-- A leaf of the chain, with the link to the one before it as well. -/
structure ChainLeaf extends IndexLeaf where
  /-- File block of the leaf before; zero at the start. -/
  prev : Nat

namespace ChainLeaf

def hashes (leaves : List ChainLeaf) : List HashEntry := leaves.flatMap (·.entries)

theorem chainEntries_map (leaves : List ChainLeaf) :
    chainEntries (leaves.map toIndexLeaf) = hashes leaves := by
  rw [chainEntries, List.flatMap_map, hashes]

end ChainLeaf

/-- Leaves each of which names the one before it and the next one. `left` stands before the first;
the last names none, and zero names none. -/
def ChainedFrom : (left : Nat) → List ChainLeaf → Prop
  | _, [] => True
  | left, [leaf] => leaf.prev = left ∧ leaf.next = 0
  | left, a :: b :: rest =>
    a.prev = left ∧ a.next ≠ 0 ∧ a.next = b.fileBlock ∧ ChainedFrom a.fileBlock (b :: rest)

theorem ChainedFrom.chained : ∀ {leaves : List ChainLeaf} {left : Nat}, ChainedFrom left leaves →
    Chained (leaves.map ChainLeaf.toIndexLeaf)
  | [], _, _ => trivial
  | [_], _, h => h.2
  | _ :: _ :: _, _, h => ⟨h.2.1, h.2.2.1, h.2.2.2.chained⟩

/-- What lies below a block of an index. -/
structure IndexPart where
  leaves : List ChainLeaf
  /-- File blocks of the nodes and leaves, each before those below it. -/
  blocks : List Nat

namespace IndexPart

def allLeaves (parts : List IndexPart) : List ChainLeaf := parts.flatMap leaves

def allBlocks (parts : List IndexPart) : List Nat := parts.flatMap blocks

def leaf (leaf : ChainLeaf) : IndexPart where
  leaves := [leaf]
  blocks := [leaf.fileBlock]

def node (fb : Nat) (parts : List IndexPart) : IndexPart where
  leaves := allLeaves parts
  blocks := fb :: allBlocks parts

def hashes (part : IndexPart) : List HashEntry := ChainLeaf.hashes part.leaves

theorem hashes_allLeaves (parts : List IndexPart) :
    ChainLeaf.hashes (allLeaves parts) = parts.flatMap hashes := List.flatMap_assoc

theorem allLeaves_map_leaf (leaves : List ChainLeaf) : allLeaves (leaves.map leaf) = leaves := by
  rw [allLeaves, List.flatMap_map]
  exact List.flatMap_singleton' leaves

theorem allBlocks_map_leaf (leaves : List ChainLeaf) :
    allBlocks (leaves.map leaf) = leaves.map (·.fileBlock) := by
  rw [allBlocks, List.flatMap_map, List.map_eq_flatMap]
  rfl

theorem allLeaves_flatten (groups : List (List IndexPart)) :
    allLeaves groups.flatten = groups.flatMap allLeaves := by
  rw [allLeaves, ← List.flatMap_id, List.flatMap_assoc]
  rfl

theorem allBlocks_flatten (groups : List (List IndexPart)) :
    allBlocks groups.flatten = groups.flatMap allBlocks := by
  rw [allBlocks, ← List.flatMap_id, List.flatMap_assoc]
  rfl

section

variable {α : Type} {places : List α} {groups : List (List IndexPart)}

/-- Nodes over parts have the leaves of the parts below them. -/
theorem allLeaves_nodes (fb : α → Nat) (hlength : places.length = groups.length) :
    allLeaves ((places.zip groups).map fun x => node (fb x.1) x.2) = allLeaves groups.flatten := by
  rw [allLeaves_flatten, allLeaves, List.flatMap_map]
  exact flatMap_zip_right allLeaves hlength

/-- Nodes over parts add their own blocks to those of the parts. -/
theorem allBlocks_nodes (fb : α → Nat) (hlength : places.length = groups.length) :
    (allBlocks ((places.zip groups).map fun x => node (fb x.1) x.2)).Perm
      (places.map fb ++ allBlocks groups.flatten) := by
  rw [allBlocks_flatten, allBlocks, List.flatMap_map]
  exact flatMap_zip_perm fb allBlocks hlength

end

end IndexPart

/-- `hash` is the largest of the hashes of `entries`. -/
def LargestHash (hash : UInt32) (entries : List HashEntry) : Prop :=
  (∃ e ∈ entries, e.hash = hash) ∧ ∀ e ∈ entries, e.hash ≤ hash

theorem Medium.HashSorted.largest_getLast {entries : List HashEntry} {e : HashEntry}
    (h : HashSorted entries) (he : entries.getLast? = some e) : LargestHash e.hash entries := by
  refine ⟨⟨e, List.mem_of_getLast? he, rfl⟩, ?_⟩
  obtain ⟨init, rfl⟩ := List.getLast?_eq_some_iff.mp he
  obtain ⟨-, -, hcross⟩ := List.pairwise_append.mp h
  intro x hx
  rcases List.mem_append.mp hx with hx | hx
  · exact hcross x hx e (List.mem_singleton.mpr rfl)
  · rw [List.mem_singleton.mp hx]
    exact UInt32.le_refl _

/-- Entries of a node and the part below each: the hash of an entry is the largest below it. -/
def EntriesHold (below : Nat → IndexPart → Prop) (entries : List NodeEntry)
    (parts : List IndexPart) : Prop :=
  List.Forall₂ (fun entry part => below entry.child.toNat part ∧
    LargestHash entry.hash part.hashes) entries parts

namespace PlacedBlocks

/-- One of the blocks decodes to `leaf`, a leaf of the chain without stale entries. -/
def LeafAt (blocks : PlacedBlocks) (crc : Bool) (leaf : ChainLeaf) : Prop :=
  ∃ block header, (leaf.fileBlock, block) ∈ blocks ∧ LeafHeader.decode block = .ok header ∧
    header.kind = .chained ∧ header.crc = crc ∧ header.stale = 0 ∧
    header.next.toNat = leaf.next ∧ header.prev.toNat = leaf.prev ∧
    header.entries block = .ok leaf.entries

/-- `part` is what decoding leads to from file block `fb`, where a block of the given level stands:
a leaf of the chain at level zero, and above that a node over blocks one level lower. -/
def Below (blocks : PlacedBlocks) (crc : Bool) : (level fb : Nat) → IndexPart → Prop
  | 0, fb, part => ∃ leaf, leaf.fileBlock = fb ∧ blocks.LeafAt crc leaf ∧ part = .leaf leaf
  | level + 1, fb, part => ∃ block node parts, (fb, block) ∈ blocks ∧
      HashNode.decode block = .ok node ∧ node.crc = crc ∧ node.level = level + 1 ∧
      EntriesHold (Below blocks crc level) node.entries parts ∧ part = .node fb parts

theorem Below.leaves_ne_nil {blocks : PlacedBlocks} {crc : Bool} : ∀ {level fb : Nat}
    {part : IndexPart}, blocks.Below crc level fb part → part.leaves ≠ []
  | 0, _, _, ⟨leaf, _, _, hpart⟩ => by
      rw [hpart]
      exact List.cons_ne_nil _ _
  | level + 1, _, _, ⟨block, node, parts, _, hdecode, _, _, hholds, hpart⟩ => by
      obtain ⟨entry, entries, hentries⟩ :=
        List.exists_cons_of_ne_nil (HashNode.entries_ne_nil hdecode)
      rw [hentries] at hholds
      cases hholds with
      | @cons _ first _ rest hfirst _ =>
        rw [hpart]
        exact List.append_ne_nil_of_left_ne_nil hfirst.1.leaves_ne_nil _

theorem Below.level_le {blocks : PlacedBlocks} {crc : Bool} {level fb : Nat} {part : IndexPart} :
    blocks.Below crc level fb part → level ≤ maxNodeDepth := by
  intro h
  cases level with
  | zero => exact Nat.zero_le _
  | succ level =>
    obtain ⟨block, node, parts, -, hdecode, -, hlevel, -, -⟩ := h
    rw [← hlevel]
    exact HashNode.level_le hdecode

/-! ## Levels -/

/-- Children and the part of the index below each of them; a child carries the last hash below
it. -/
def ChildrenHold (blocks : PlacedBlocks) (crc : Bool) (level : Nat) (children : List IndexChild)
    (parts : List IndexPart) : Prop :=
  List.Forall₂ (fun c part => blocks.Below crc level c.fileBlock part ∧ c.fileBlock < 2 ^ 32 ∧
    ∃ e, part.hashes.getLast? = some e ∧ c.hash = e.hash.toNat) children parts

namespace ChildrenHold

open Medium (HashSorted)

variable {blocks : PlacedBlocks} {o : ImageOptions} {crc : Bool} {owner level : Nat}
  {children : List IndexChild} {parts : List IndexPart}

theorem entriesHold (h : blocks.ChildrenHold crc level children parts)
    (hs : HashSorted (parts.flatMap IndexPart.hashes)) :
    EntriesHold (blocks.Below crc level) (children.map IndexChild.entry) parts := by
  induction h with
  | nil => exact .nil
  | @cons c part children parts hhead _ ih =>
    obtain ⟨hbelow, hblock, e, he, hhash⟩ := hhead
    rw [List.flatMap_cons] at hs
    obtain ⟨hpart, hrest, -⟩ := List.pairwise_append.mp hs
    refine .cons ⟨?_, ?_⟩ (ih hrest)
    · rw [IndexChild.entry, UInt32.toNat_ofNat_of_lt' hblock]
      exact hbelow
    · rw [IndexChild.entry, hhash, UInt32.ofNat_toNat]
      exact HashSorted.largest_getLast hpart he

theorem numbers_lt (h : blocks.ChildrenHold crc level children parts) :
    ∀ c ∈ children, c.hash < 2 ^ 32 ∧ c.fileBlock < 2 ^ 32 := by
  induction h with
  | nil => simp
  | @cons c part children parts hhead _ ih =>
    obtain ⟨-, hblock, e, -, hhash⟩ := hhead
    refine List.forall_mem_cons.mpr ⟨⟨?_, hblock⟩, ih⟩
    rw [hhash]
    exact e.hash.toNat_lt

/-- The last child carries the last hash of all. -/
theorem last (h : blocks.ChildrenHold crc level children parts) (hne : children ≠ []) :
    ∃ e, (parts.flatMap IndexPart.hashes).getLast? = some e ∧
      (children.getLast?.map IndexChild.hash).getD 0 = e.hash.toNat := by
  induction h with
  | nil => exact absurd rfl hne
  | @cons c part children parts hhead hrest ih =>
    obtain ⟨-, -, e, he, hhash⟩ := hhead
    rw [List.flatMap_cons, List.getLast?_append]
    by_cases hnil : children = []
    · subst hnil
      cases hrest
      exact ⟨e, he, hhash⟩
    · obtain ⟨last, hlast, heq⟩ := ih hnil
      refine ⟨last, by rw [hlast, Option.some_or], ?_⟩
      rw [List.getLast?_cons_of_ne_nil hnil]
      exact heq

/-- A node over children has the parts below them below it. -/
theorem node (ho : o.Accepted) {fb next prev : Nat}
    (h : blocks.ChildrenHold o.isV5 level children parts) (hne : children ≠ [])
    (hs : HashSorted (parts.flatMap IndexPart.hashes))
    (hroom : indexHeaderLength o.isV5 + 8 * children.length ≤ o.dirBlockSize)
    (hlevel : level + 1 ≤ maxNodeDepth)
    (hin : (fb, indexNodeBlock o owner (level + 1) next prev children) ∈ blocks) :
    blocks.Below o.isV5 (level + 1) fb (.node fb parts) := by
  obtain ⟨-, hdecode⟩ :=
    decode_indexNodeBlock ho hroom hne h.numbers_lt (Nat.succ_pos level) hlevel owner next prev rfl
  exact ⟨_, _, parts, hin, hdecode, rfl, rfl, h.entriesHold hs, rfl⟩

/-- Nodes over chunks of children are children of the level above, with the parts of the chunks
below them. -/
theorem parents (ho : o.Accepted) {fanout index total : Nat} (hfanout : 0 < fanout)
    (hroom : indexHeaderLength o.isV5 + 8 * fanout ≤ o.dirBlockSize)
    (hend : o.indexBlock total ≤ o.freeBlock)
    (h : blocks.ChildrenHold o.isV5 level children parts)
    (hs : HashSorted (parts.flatMap IndexPart.hashes)) (hlevel : level + 1 ≤ maxNodeDepth)
    (htotal : index + (chunksOf fanout children).length ≤ total)
    (hin : ∀ x ∈ (indexPlaces o index (chunksOf fanout children).length).zip
        (chunksOf fanout children),
      (x.1.2.1, indexNodeBlock o owner (level + 1) x.1.2.2 x.1.1 x.2) ∈ blocks) :
    blocks.ChildrenHold o.isV5 (level + 1)
      (((indexPlaces o index (chunksOf fanout children).length).zip
        (chunksOf fanout children)).map fun x =>
          { hash := (x.2.getLast?.map IndexChild.hash).getD 0, fileBlock := x.1.2.1 })
      (((indexPlaces o index (chunksOf fanout children).length).zip
        (chunksOf fanout parts)).map fun x => .node x.1.2.1 x.2) := by
  have hgroups := forall₂_zip_zip (forall₂_chunksOf hfanout h)
    (length_indexPlaces o index (chunksOf fanout children).length)
  rw [ChildrenHold, List.forall₂_map_left_iff, List.forall₂_map_right_iff]
  refine hgroups.imp ?_
  rintro ⟨⟨prev, fb, next⟩, chunk⟩ ⟨place, group⟩ ⟨hzip, hgroup, rfl, hbelow⟩
  have hbelow : blocks.ChildrenHold o.isV5 level chunk group := hbelow
  obtain ⟨hplace, hchunk⟩ := List.of_mem_zip hzip
  obtain ⟨hfull, hshort⟩ := length_of_mem_chunksOf children chunk hchunk
  have hchunkNe := List.length_pos_iff.mp hfull
  obtain ⟨i, -, hi, hfb⟩ := mem_indexPlaces hplace
  have hfb : fb = o.indexBlock i := hfb
  have hbounds := indexBlock_bounds_of_lt (i := i) hend (by omega)
  have hlow : fb < 2 ^ 32 := by omega
  have hgroupSorted : HashSorted (group.flatMap IndexPart.hashes) := by
    rw [← flatten_chunksOf hfanout parts] at hs
    exact hs.sublist ((List.sublist_flatten_of_mem hgroup).flatMap _)
  refine ⟨hbelow.node ho hchunkNe hgroupSorted (by omega) hlevel (hin _ hzip), hlow, ?_⟩
  rw [IndexPart.hashes, IndexPart.node, IndexPart.hashes_allLeaves]
  exact hbelow.last hchunkNe

theorem level_parts {fanout : Nat} (index : Nat) (hfanout : 0 < fanout)
    (h : blocks.ChildrenHold o.isV5 level children parts) {tops : List IndexPart}
    (htops : tops = ((indexPlaces o index (chunksOf fanout children).length).zip
      (chunksOf fanout parts)).map fun x => .node x.1.2.1 x.2) :
    IndexPart.allLeaves tops = IndexPart.allLeaves parts ∧
      tops.flatMap IndexPart.hashes = parts.flatMap IndexPart.hashes ∧
      (IndexPart.allBlocks tops).Perm
        (((indexPlaces o index (chunksOf fanout children).length).zip
          (chunksOf fanout children)).map (·.1.2.1) ++ IndexPart.allBlocks parts) := by
  have hsame : (indexPlaces o index (chunksOf fanout children).length).length =
      (chunksOf fanout parts).length := by
    rw [length_indexPlaces, length_chunksOf hfanout, length_chunksOf hfanout, h.length_eq]
  have hleaves := IndexPart.allLeaves_nodes (fun place : Nat × Nat × Nat => place.2.1) hsame
  have hblocks := IndexPart.allBlocks_nodes (fun place : Nat × Nat × Nat => place.2.1) hsame
  rw [flatten_chunksOf hfanout] at hleaves hblocks
  rw [blocks_indexPlaces, ← middle_indexPlaces, htops]
  refine ⟨hleaves, ?_, hblocks⟩
  rw [← IndexPart.hashes_allLeaves, hleaves, IndexPart.hashes_allLeaves]

variable (owner) in
/-- Levels that were written over children make a tree, whose blocks are theirs and those below
the children. -/
theorem levels (ho : o.Accepted) {fanout total : Nat} (hfanout : 2 ≤ fanout)
    (hroom : indexHeaderLength o.isV5 + 8 * fanout ≤ o.dirBlockSize)
    (hend : o.indexBlock total ≤ o.freeBlock) :
    ∀ {fuel level : Nat} (index : Nat) {children : List IndexChild} {parts : List IndexPart},
      blocks.ChildrenHold o.isV5 level children parts →
      HashSorted (parts.flatMap IndexPart.hashes) → children ≠ [] → children.length ≤ fuel →
      level + (nodeLevelSizes fanout fuel children.length).length ≤ maxNodeDepth →
      index + (nodeLevelSizes fanout fuel children.length).sum ≤ total + 1 →
      (∀ x ∈ indexLevels o owner fanout fuel (level + 1) index children, x ∈ blocks) →
      ∃ part, blocks.Below o.isV5 (level + (nodeLevelSizes fanout fuel children.length).length)
          (o.indexBlock 0) part ∧
        part.leaves = IndexPart.allLeaves parts ∧
        part.blocks.Perm ((indexLevels o owner fanout fuel (level + 1) index children).map
          Prod.fst ++ IndexPart.allBlocks parts) := by
  intro fuel
  induction fuel with
  | zero =>
    intro level index children parts _ _ hne hfuel
    exact absurd (List.length_eq_zero_iff.mp (Nat.le_zero.mp hfuel)) hne
  | succ fuel ih =>
    intro level index children parts h hs hne hfuel hdepth htotal hin
    have hpos := List.length_pos_iff.mpr hne
    rw [indexLevels] at hin ⊢
    rw [nodeLevelSizes] at hdepth htotal ⊢
    by_cases hfits : children.length ≤ fanout
    · rw [if_pos hfits] at hin hdepth ⊢
      rw [List.length_singleton] at hdepth ⊢
      rw [if_pos hfits]
      exact ⟨_, h.node ho hne hs (by omega) hdepth (hin _ List.mem_cons_self), rfl, .rfl⟩
    · rw [if_neg hfits] at hin hdepth htotal ⊢
      rw [if_neg hfits]
      have hfan : 0 < fanout := by omega
      have hlt := blocksFor_lt hfanout (Nat.not_le.mp hfits)
      have hcount := length_chunksOf hfan children
      have hlength := length_parents o index hfan children
      have hsum := nodeLevelSizes_sum_pos fanout fuel (blocksFor children.length fanout)
      rw [List.length_cons] at hdepth ⊢
      rw [List.sum_cons] at htotal
      have hparents := h.parents ho hfan hroom hend hs (by omega)
        (show index + (chunksOf fanout children).length ≤ total by omega)
        fun x hx => hin _ (List.mem_append_left _ (List.mem_map_of_mem hx))
      obtain ⟨hleaves, hhashes, hblocks⟩ := h.level_parts index hfan rfl
      have hsorted := hs
      rw [← hhashes] at hsorted
      obtain ⟨part, hpart, hpartLeaves, hpartBlocks⟩ := ih _ hparents hsorted
        (by
          apply List.length_pos_iff.mp
          rw [List.length_map, hlength]
          exact blocksFor_pos hfan hpos)
        (by rw [List.length_map, hlength]; omega) (by rw [List.length_map, hlength]; omega)
        (by rw [List.length_map, hlength, hcount]; omega)
        fun x hx => hin x (List.mem_append_right _ hx)
      rw [List.length_map, hlength, Nat.add_assoc, Nat.add_comm 1] at hpart
      refine ⟨part, hpart, hpartLeaves.trans hleaves, ?_⟩
      refine (hpartBlocks.trans (hblocks.append_left _)).trans ?_
      rw [List.map_append, List.append_assoc, List.map_map]
      exact List.perm_append_comm_assoc _ _ _

end ChildrenHold

end PlacedBlocks

/-! ## Leaves -/

/-- A chunk in its place, as a leaf of the chain. -/
def placedLeaf (x : (Nat × Nat × Nat) × List HashEntry) : ChainLeaf where
  fileBlock := x.1.2.1
  next := x.1.2.2
  entries := x.2
  prev := x.1.1

/-- The leaves of an index over these hash entries. -/
def ImageOptions.chainLeaves (o : ImageOptions) (capacity : Nat) (hashes : List HashEntry) :
    List ChainLeaf :=
  ((indexPlaces o 1 (chunksOf capacity hashes).length).zip (chunksOf capacity hashes)).map placedLeaf

theorem chainedFrom_neighbours : ∀ {xs : List Nat} {left : Nat} {chunks : List (List HashEntry)},
    chunks.length = xs.length → (∀ x ∈ xs, x ≠ 0) →
      ChainedFrom left (((neighbours 0 left xs).zip chunks).map placedLeaf)
  | [], _, _, _, _ => by
      rw [neighbours, List.zip_nil_left]
      trivial
  | [_], _, [_], _, _ => ⟨rfl, rfl⟩
  | x :: y :: rest, left, chunk :: next :: chunks, hlength, hne => by
      have ih : ChainedFrom x (((neighbours 0 x (y :: rest)).zip (next :: chunks)).map
          placedLeaf) :=
        chainedFrom_neighbours (Nat.succ.inj hlength) fun z hz => hne z (List.mem_cons_of_mem _ hz)
      have hy : y ≠ 0 := hne y (List.mem_cons_of_mem _ List.mem_cons_self)
      cases rest with
      | nil => exact ⟨rfl, hy, rfl, ih⟩
      | cons z rest => exact ⟨rfl, hy, rfl, ih⟩

section

variable {o : ImageOptions} {owner capacity fanout : Nat} {hashes : List HashEntry}
  {index : PlacedBlocks}

theorem length_chainLeaves (hcapacity : 0 < capacity) (hashes : List HashEntry) :
    (o.chainLeaves capacity hashes).length = blocksFor hashes.length capacity := by
  rw [ImageOptions.chainLeaves, List.length_map, length_parents o 1 hcapacity]

theorem chainedFrom_chainLeaves (o : ImageOptions) (capacity : Nat) (hashes : List HashEntry) :
    ChainedFrom 0 (o.chainLeaves capacity hashes) := by
  apply chainedFrom_neighbours
  · rw [List.length_map, List.length_range]
  · intro x hx
    obtain ⟨i, -, rfl⟩ := List.mem_map.mp hx
    rw [o.indexBlock_eq]
    omega

theorem hashes_chainLeaves (hcapacity : 0 < capacity) (hashes : List HashEntry) :
    ChainLeaf.hashes (o.chainLeaves capacity hashes) = hashes := by
  have hlength := length_indexPlaces o 1 (chunksOf capacity hashes).length
  have hright := flatMap_zip_right id hlength
  rw [List.flatMap_id, flatten_chunksOf hcapacity] at hright
  rw [ChainLeaf.hashes, ImageOptions.chainLeaves, List.flatMap_map]
  exact hright

theorem numbers_lt_of_mem_indexPlaces {count total : Nat} {place : Nat × Nat × Nat}
    (hend : o.indexBlock total ≤ o.freeBlock) (htotal : 1 + count ≤ total)
    (h : place ∈ indexPlaces o 1 count) :
    place.1 < 2 ^ 32 ∧ place.2.1 < 2 ^ 32 ∧ place.2.2 < 2 ^ 32 := by
  have hblock {fb : Nat} (hfb : fb ∈ (List.range count).map fun i => o.indexBlock (1 + i)) :
      fb < 2 ^ 32 := by
    obtain ⟨i, hi, rfl⟩ := List.mem_map.mp hfb
    have hlt := List.mem_range.mp hi
    have hbounds := indexBlock_bounds_of_lt (i := 1 + i) hend (by omega)
    omega
  have hbeside {fb : Nat} (hfb : fb = 0 ∨ fb ∈ (List.range count).map fun i =>
      o.indexBlock (1 + i)) : fb < 2 ^ 32 := by
    rcases hfb with rfl | hfb
    · decide
    · exact hblock hfb
  obtain ⟨hleft, hright⟩ := beside_of_mem_neighbours h
  exact ⟨hbeside hleft, hblock (mem_neighbours h), hbeside hright⟩

theorem leafAt_chainLeaves (ho : o.Accepted)
    (h : indexBlocks o owner hashes capacity fanout = .ok index)
    (hend : o.indexBlock (indexLevelSizes capacity fanout hashes.length).sum ≤ o.freeBlock) :
    ∀ leaf ∈ o.chainLeaves capacity hashes, leaf.fileBlock < 2 ^ 32 ∧
      index.LeafAt o.isV5 leaf := by
  obtain ⟨⟨hcapacity, -⟩, hroom, -, rfl⟩ := indexBlocks_eq_ok.mp h
  have hcount := length_chunksOf hcapacity hashes
  have hsum := nodeLevelSizes_sum_pos fanout (blocksFor hashes.length capacity)
    (blocksFor hashes.length capacity)
  rw [indexLevelSizes, List.sum_cons] at hend
  intro leaf hleaf
  obtain ⟨⟨place, chunk⟩, hin, rfl⟩ := List.mem_map.mp hleaf
  obtain ⟨hplace, hchunk⟩ := List.of_mem_zip hin
  obtain ⟨-, hshort⟩ := length_of_mem_chunksOf hashes chunk hchunk
  obtain ⟨hprev, hblock, hnext⟩ := numbers_lt_of_mem_indexPlaces hend (by omega) hplace
  have hchunkRoom : indexHeaderLength o.isV5 + 8 * chunk.length ≤ o.dirBlockSize := by omega
  obtain ⟨-, hheader, hentries⟩ := decode_chainedLeaf ho hchunkRoom owner place.2.2 place.1
  refine ⟨hblock, _, _, List.mem_append_left _ (List.mem_map_of_mem hin), hheader, rfl, rfl, rfl,
    ?_, ?_, hentries⟩
  · exact UInt32.toNat_ofNat_of_lt' hnext
  · exact UInt32.toNat_ofNat_of_lt' hprev

theorem childrenHold_chainLeaves (ho : o.Accepted)
    (h : indexBlocks o owner hashes capacity fanout = .ok index)
    (hend : o.indexBlock (indexLevelSizes capacity fanout hashes.length).sum ≤ o.freeBlock) :
    index.ChildrenHold o.isV5 0
      (((indexPlaces o 1 (chunksOf capacity hashes).length).zip (chunksOf capacity hashes)).map
        fun x => { hash := (x.2.getLast?.map (·.hash.toNat)).getD 0, fileBlock := x.1.2.1 })
      ((o.chainLeaves capacity hashes).map IndexPart.leaf) := by
  have hleaves := leafAt_chainLeaves ho h hend
  rw [PlacedBlocks.ChildrenHold, ImageOptions.chainLeaves, List.map_map,
    List.forall₂_map_left_iff, List.forall₂_map_right_iff, List.forall₂_same]
  rintro ⟨place, chunk⟩ hin
  obtain ⟨hlow, hleaf⟩ := hleaves _ (List.mem_map_of_mem hin)
  obtain ⟨hfull, -⟩ := length_of_mem_chunksOf hashes chunk (List.of_mem_zip hin).2
  have hlast := List.getLast?_eq_some_getLast (List.length_pos_iff.mp hfull)
  refine ⟨⟨_, rfl, hleaf, rfl⟩, hlow, chunk.getLast (List.length_pos_iff.mp hfull), ?_, ?_⟩
  · show ([placedLeaf (place, chunk)].flatMap (·.entries)).getLast? = _
    rw [List.flatMap_singleton]
    exact hlast
  · show (chunk.getLast?.map _).getD 0 = _
    rw [hlast]
    rfl

/-- An index over hash entries in order is a tree over the chain of its leaves, rooted in the first
block of the index region, if it is no higher than a reader descends. The blocks of the tree are all
blocks of the index. -/
theorem below_indexBlocks (ho : o.Accepted)
    (h : indexBlocks o owner hashes capacity fanout = .ok index) (hne : hashes ≠ [])
    (hend : o.indexBlock (indexLevelSizes capacity fanout hashes.length).sum ≤ o.freeBlock)
    (hheight : indexHeight capacity fanout hashes.length ≤ maxNodeDepth)
    (hs : Medium.HashSorted hashes) :
    ∃ blocks, index.Below o.isV5 (indexHeight capacity fanout hashes.length) (o.indexBlock 0)
        ⟨o.chainLeaves capacity hashes, blocks⟩ ∧ blocks.Perm (index.map Prod.fst) := by
  have hchildren := childrenHold_chainLeaves ho h hend
  obtain ⟨⟨hcapacity, hfanout⟩, -, hroom, hindex⟩ := indexBlocks_eq_ok.mp h
  have hcount := length_chunksOf hcapacity hashes
  have hlength := length_parents o 1 hcapacity hashes
  have hpos := blocksFor_pos hcapacity (List.length_pos_iff.mpr hne)
  rw [indexLevelSizes, List.sum_cons] at hend
  have hsorted := hs
  rw [← hashes_chainLeaves (o := o) hcapacity hashes, ← IndexPart.allLeaves_map_leaf
    (o.chainLeaves capacity hashes), IndexPart.hashes_allLeaves] at hsorted
  obtain ⟨⟨leaves, blocks⟩, hbelow, hleaves, hblocks⟩ := hchildren.levels owner ho hfanout hroom
    hend (1 + (chunksOf capacity hashes).length) hsorted
    (List.length_pos_iff.mp (by rw [List.length_map]; omega)) (Nat.le_of_eq (List.length_map _))
    (by rw [List.length_map, hlength, Nat.zero_add]; exact hheight)
    (by rw [List.length_map, hlength, hcount]; omega)
    fun x hx => by rw [hindex]; exact List.mem_append_right _ hx
  rw [IndexPart.allLeaves_map_leaf] at hleaves
  rw [IndexPart.allBlocks_map_leaf, ImageOptions.chainLeaves, List.map_map] at hblocks
  rw [List.length_map, hlength, Nat.zero_add] at hbelow
  dsimp only at hleaves hblocks
  subst hleaves
  refine ⟨blocks, hbelow, hblocks.trans ?_⟩
  rw [hindex, List.map_append, List.map_map]
  exact List.perm_append_comm

end

/-! ## Reading an index from a medium -/

namespace Medium

theorem checkIndexRegion_indexBlock {m : Medium} {dir : Inode} {o : ImageOptions}
    (hm : o.Measures m.geometry) {total i : Nat} (hend : o.indexBlock total ≤ o.freeBlock)
    (hi : i < total) : m.checkIndexRegion dir (o.indexBlock i) = .ok () := by
  have hbounds := indexBlock_bounds_of_lt hend hi
  have hpos := o.blocksPerDirBlock_pos
  rw [checkIndexRegion, hm.indexRegion, hm.freeRegion, if_neg]
  rw [Bool.or_eq_true, decide_eq_true_eq, decide_eq_true_eq]
  omega

section

variable {m : Medium} {dir : Inode} {blocks : PlacedBlocks} {crc : Bool}
  (hread : ∀ x ∈ blocks, m.checkIndexRegion dir x.1 = .ok () ∧ m.dirBlock dir x.1 = .ok x.2)
include hread

theorem indexLeafAt_of_leafAt {leaf : ChainLeaf} (h : blocks.LeafAt crc leaf) :
    m.IndexLeafAt dir leaf.toIndexLeaf := by
  obtain ⟨block, header, hin, hheader, hkind, -, -, hnext, -, hentries⟩ := h
  obtain ⟨hregion, hblock⟩ := hread _ hin
  exact ⟨hregion, header, fresh_readLeaf_eq_ok.mpr ⟨block, hblock, hheader, hkind, hentries⟩, hnext⟩

theorem indexBelow_of_below : ∀ {level fb : Nat} {part : IndexPart},
    blocks.Below crc level fb part →
      m.IndexBelow dir level fb (part.leaves.map ChainLeaf.toIndexLeaf)
  | 0, _, _, ⟨leaf, hfb, hleaf, hpart⟩ => by
      rw [hpart]
      exact ⟨leaf.toIndexLeaf, hfb, indexLeafAt_of_leafAt hread hleaf, rfl⟩
  | level + 1, fb, _, ⟨block, node, parts, hin, hdecode, _, hlevel, hholds, hpart⟩ => by
      obtain ⟨hregion, hblock⟩ := hread _ hin
      obtain ⟨magic, hmagic, hmark⟩ := not_isChainedMagic_of_decode hdecode
      refine ⟨node, parts.map fun part => part.leaves.map ChainLeaf.toIndexLeaf, ?_, hlevel, ?_, ?_⟩
      · rw [fresh_readIndexBlock, hregion, ok_bind, hblock, ok_bind, decodedIn, hmagic,
          mapError_ok, ok_bind, hmark, if_neg Bool.false_ne_true, decodedIn, hdecode]
        rfl
      · rw [NodeHolds, List.forall₂_map_right_iff]
        refine hholds.imp ?_
        rintro entry part ⟨hbelow, hlargest⟩
        rw [ChainLeaf.chainEntries_map]
        exact ⟨indexBelow_of_below hbelow, hlargest.2⟩
      · rw [hpart, ← List.flatMap_def]
        exact List.map_flatMap

end

variable {m : Medium} {dir : Inode} {o : ImageOptions} {owner capacity fanout : Nat}
  {hashes : List HashEntry} {index : PlacedBlocks}

/-- An index whose blocks stand where they were placed is a tree over a chain of leaves, which hold
the hash entries. -/
theorem indexBlocks_read (ho : o.Accepted) (hm : o.Measures m.geometry)
    (h : indexBlocks o owner hashes capacity fanout = .ok index)
    (hfits : IndexFits o capacity fanout hashes.length) (hne : hashes ≠ [])
    (hs : HashSorted hashes) (hread : ∀ x ∈ index, m.dirBlock dir x.1 = .ok x.2) :
    ∃ leaves root, m.IndexBelow dir root m.geometry.indexRegion leaves ∧ Chained leaves ∧
      chainEntries leaves = hashes ∧ leaves.length = blocksFor hashes.length capacity := by
  obtain ⟨⟨hcapacity, -⟩, -⟩ := indexBlocks_eq_ok.mp h
  have hfound : ∀ x ∈ index, m.checkIndexRegion dir x.1 = .ok () ∧
      m.dirBlock dir x.1 = .ok x.2 := by
    intro x hx
    obtain ⟨i, hi, heq⟩ := (mem_indexBlocks_iff ho h).mp (List.mem_map_of_mem hx)
    refine ⟨?_, hread x hx⟩
    rw [← heq]
    exact checkIndexRegion_indexBlock hm hfits.room hi
  have hheight : indexHeight capacity fanout hashes.length ≤ maxNodeDepth :=
    Nat.le_of_succ_le_succ hfits.height
  obtain ⟨blocks, hbelow, -⟩ := below_indexBlocks ho h hne hfits.room hheight hs
  have hroot : m.geometry.indexRegion = o.indexBlock 0 := by
    rw [hm.indexRegion, o.indexBlock_eq, Nat.zero_mul, Nat.add_zero]
  refine ⟨(o.chainLeaves capacity hashes).map ChainLeaf.toIndexLeaf,
    indexHeight capacity fanout hashes.length, ?_,
    (chainedFrom_chainLeaves o capacity hashes).chained, ?_, ?_⟩
  · rw [hroot]
    exact indexBelow_of_below hfound hbelow
  · rw [ChainLeaf.chainEntries_map, hashes_chainLeaves hcapacity]
  · rw [List.length_map, length_chainLeaves hcapacity]

end Medium

end XfsVolume
