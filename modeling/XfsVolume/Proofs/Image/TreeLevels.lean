import XfsVolume.Proofs.Image.Callers
import XfsVolume.Proofs.Image.TreeParts

/-!
# Extent trees as they are written

A level is written by taking a block for each of its nodes and then filling them, each node naming
those beside it (`Builder.WroteLevel`). The leaves hold the extents in their order, and levels are
put on top of one another until few enough nodes are left for the root. How high the root stands
and how many blocks lie below it depends on the number of extents alone
(`ImageOptions.treeLevel`, `ImageOptions.treeBlocks`).
-/

namespace XfsVolume

/-! ## The height of a tree -/

/-- Levels that are put on top of `n` nodes. -/
def levelsAbove (fanout limit : Nat) : (fuel n : Nat) → Nat
  | 0, _ => 0
  | fuel + 1, n =>
    if n ≤ limit then 0 else levelsAbove fanout limit fuel (blocksFor n fanout) + 1

/-- Blocks of the levels that are put on top of `n` nodes. -/
def blocksAbove (fanout limit : Nat) : (fuel n : Nat) → Nat
  | 0, _ => 0
  | fuel + 1, n =>
    if n ≤ limit then 0
    else blocksFor n fanout + blocksAbove fanout limit fuel (blocksFor n fanout)

/-- Level of the root of a tree of `n` extents. -/
def ImageOptions.treeLevel (o : ImageOptions) (shape : TreeShape) (n : Nat) : Nat :=
  let fanout := min shape.fanout o.nodeRoom
  let leaves := blocksFor n (min shape.leafCapacity o.nodeRoom)
  levelsAbove fanout (min fanout o.rootRoom) leaves leaves + 1

/-- Blocks of a tree of `n` extents. The root lies in the fork and takes none. -/
def ImageOptions.treeBlocks (o : ImageOptions) (shape : TreeShape) (n : Nat) : Nat :=
  let fanout := min shape.fanout o.nodeRoom
  let leaves := blocksFor n (min shape.leafCapacity o.nodeRoom)
  leaves + blocksAbove fanout (min fanout o.rootRoom) leaves leaves

theorem blocksFor_le {n per m : Nat} (hper : 0 < per) (h : n ≤ m * per) : blocksFor n per ≤ m := by
  rw [blocksFor, ← Nat.lt_succ_iff, Nat.div_lt_iff_lt_mul hper, Nat.succ_mul]
  omega

theorem blocksFor_lt_self {n per : Nat} (hper : 2 ≤ per) (hn : 2 ≤ n) : blocksFor n per < n := by
  by_cases hle : n ≤ per
  · have hone : blocksFor n per ≤ 1 := blocksFor_le (by omega) (by omega)
    omega
  · exact blocksFor_lt hper (Nat.not_le.mp hle)

/-- A tree over few enough nodes is not high. -/
theorem levelsAbove_le {fanout limit : Nat} (hfanout : 0 < fanout) : ∀ {k fuel n : Nat},
    n ≤ limit * fanout ^ k → levelsAbove fanout limit fuel n ≤ k
  | _, 0, _, _ => Nat.zero_le _
  | 0, fuel + 1, n, h => by
      rw [Nat.pow_zero, Nat.mul_one] at h
      rw [levelsAbove, if_pos h]
  | k + 1, fuel + 1, n, h => by
      rw [Nat.pow_succ, ← Nat.mul_assoc] at h
      rw [levelsAbove]
      split
      · exact Nat.zero_le _
      · exact Nat.succ_le_succ (levelsAbove_le hfanout (blocksFor_le hfanout h))

namespace Builder

/-! ## Places of the nodes of a level -/

section

variable {α : Type} {addresses : List Nat} {chunks : List (List α)}

def nodeLinks (key : α → Nat) (addresses : List Nat) (chunks : List (List α)) :
    List TreeLink :=
  (addresses.zip chunks).map fun x => { key := (x.2.head?.map key).getD 0, address := x.1 }

/-- The nodes of a level, each with those beside it. -/
def levelPlaces (addresses : List Nat) (chunks : List (List α)) :
    List ((Nat × Nat × Nat) × List α) :=
  (neighbours nullAddress nullAddress addresses).zip chunks

theorem nodeLinks_eq (key : α → Nat) (addresses : List Nat) (chunks : List (List α)) :
    nodeLinks key addresses chunks = (levelPlaces addresses chunks).map fun x =>
      { key := (x.2.head?.map key).getD 0, address := x.1.2.1 } := by
  rw [nodeLinks, ← zip_neighbours nullAddress nullAddress, List.map_map]
  rfl

theorem addresses_levelPlaces (h : addresses.length = chunks.length) :
    (levelPlaces addresses chunks).map (·.1.2.1) = addresses :=
  middle_zip_neighbours nullAddress nullAddress (Nat.le_of_eq h)

theorem chunks_levelPlaces (h : addresses.length = chunks.length) :
    (levelPlaces addresses chunks).map Prod.snd = chunks :=
  List.map_snd_zip (Nat.le_of_eq (by rw [length_neighbours, h]))

theorem mem_of_mem_levelPlaces {x : (Nat × Nat × Nat) × List α}
    (h : x ∈ levelPlaces addresses chunks) : x.1.2.1 ∈ addresses ∧ x.2 ∈ chunks :=
  ⟨mem_neighbours (List.of_mem_zip h).1, (List.of_mem_zip h).2⟩

end

end Builder

namespace Medium

/-! ## Leaves -/

variable {o : ImageOptions}

def placedTreeLeaf (o : ImageOptions) (x : (Nat × Nat × Nat) × List Extent) : StoredLeaf where
  address := x.1.2.1
  block := o.blockOffset x.1.2.1 / imageBlockSize
  extents := x.2
  right := x.1.2.2
  left := x.1.1

def leafPart (o : ImageOptions) (x : (Nat × Nat × Nat) × List Extent) : TreePart where
  leaves := [placedTreeLeaf o x]
  blocks := [x.1.2.1]

theorem allLeaves_leafParts (o : ImageOptions) (xs : List ((Nat × Nat × Nat) × List Extent)) :
    TreePart.allLeaves (xs.map (leafPart o)) = xs.map (placedTreeLeaf o) := by
  rw [TreePart.allLeaves, List.flatMap_map, List.map_eq_flatMap]
  rfl

theorem allBlocks_leafParts (o : ImageOptions) (xs : List ((Nat × Nat × Nat) × List Extent)) :
    TreePart.allBlocks (xs.map (leafPart o)) = xs.map (·.1.2.1) := by
  rw [TreePart.allBlocks, List.flatMap_map, List.map_eq_flatMap]
  rfl

theorem leafExtents_placed (o : ImageOptions) {capacity : Nat} (hcapacity : 0 < capacity)
    {extents : List Extent} {addresses : List Nat}
    (hlength : addresses.length = (chunksOf capacity extents).length) :
    leafExtents ((Builder.levelPlaces addresses (chunksOf capacity extents)).map
      (placedTreeLeaf o)) = extents := by
  have hall := flatten_chunksOf hcapacity extents
  rw [← Builder.chunks_levelPlaces hlength] at hall
  rw [leafExtents, List.flatMap_def, List.map_map]
  exact hall

theorem linked_neighbours : ∀ {xs : List Nat} {left : Nat} {chunks : List (List Extent)},
    chunks.length = xs.length →
      Linked (((neighbours nullAddress left xs).zip chunks).map (placedTreeLeaf o))
  | [], _, _, _ => by
      rw [neighbours, List.zip_nil_left]
      trivial
  | [_], _, [_], _ => rfl
  | x :: y :: rest, left, chunk :: next :: chunks, hlength => by
      have ih : Linked (((neighbours nullAddress x (y :: rest)).zip (next :: chunks)).map
          (placedTreeLeaf o)) := linked_neighbours (Nat.succ.inj hlength)
      cases rest with
      | nil => exact ⟨rfl, rfl, ih⟩
      | cons z rest => exact ⟨rfl, rfl, ih⟩

theorem leftEnd_placed {addresses : List Nat} {chunks : List (List Extent)}
    (hlength : addresses.length = chunks.length) (hne : chunks ≠ []) :
    ∃ leaf ∈ ((Builder.levelPlaces addresses chunks).map (placedTreeLeaf o)).head?,
      leaf.left = nullAddress := by
  obtain ⟨chunk, chunks, rfl⟩ := List.exists_cons_of_ne_nil hne
  cases addresses with
  | nil => cases hlength
  | cons first rest =>
    cases rest with
    | nil => exact ⟨_, rfl, rfl⟩
    | cons next rest => exact ⟨_, rfl, rfl⟩

end Medium

namespace Builder

variable {b b' : Builder}

/-! ## Levels -/

/-- `b'` is `b` after a level was written: a node for each chunk, at addresses that were taken. -/
structure WroteLevel {α : Type} (b : Builder) (owner level : Nat) (chunks : List (List α))
    (records : List α → List Field) (addresses : List Nat) (b' : Builder) : Prop where
  sound : b'.Sound
  grows : b.Grows (fun _ => False) b'
  length : addresses.length = chunks.length
  placed : ∀ a ∈ addresses, ∃ ag agBlock, b.options.Run a 1 ag agBlock
  taken : b.TakenSince addresses b'
  blocks : ∀ x ∈ levelPlaces addresses chunks, b'.block x.1.2.1 = b.options.node owner x.1.2.1
    level x.2.length x.1.1 x.1.2.2 (records x.2)

namespace WroteLevel

variable {α : Type} {owner level : Nat} {chunks : List (List α)} {records : List α → List Field}
  {addresses : List Nat} {x : (Nat × Nat × Nat) × List α}

/-- A node for each chunk: as many links, and as many blocks, as the records need. -/
theorem counts {n : Nat} {xs : List α} (hn : 0 < n)
    (h : b.WroteLevel owner level (chunksOf n xs) records addresses b') (key : α → Nat) :
    (nodeLinks key addresses (chunksOf n xs)).length = blocksFor xs.length n ∧
      b'.taken = b.taken + blocksFor xs.length n := by
  have hlength := h.length
  rw [length_chunksOf hn] at hlength
  refine ⟨?_, by rw [h.taken.count, hlength]⟩
  rw [nodeLinks, List.length_map, List.length_zip, length_chunksOf hn, hlength, Nat.min_self]

theorem addresses_lt (h : b.WroteLevel owner level chunks records addresses b')
    (hfit : b.options.AddressesFit) : ∀ a ∈ addresses, a < 2 ^ 64 := by
  intro a ha
  obtain ⟨ag, agBlock, hrun⟩ := h.placed a ha
  exact hfit hrun

theorem links_lt (h : b.WroteLevel owner level chunks records addresses b')
    (hfit : b.options.AddressesFit) (key : α → Nat) :
    ∀ link ∈ nodeLinks key addresses chunks, link.address < 2 ^ 64 := by
  intro link hin
  obtain ⟨x, hx, rfl⟩ := List.mem_map.mp hin
  exact h.addresses_lt hfit _ (List.of_mem_zip hx).1

theorem beside_lt (h : b.WroteLevel owner level chunks records addresses b')
    (hfit : b.options.AddressesFit) (hx : x ∈ levelPlaces addresses chunks) :
    x.1.1 < 2 ^ 64 ∧ x.1.2.2 < 2 ^ 64 := by
  have hbeside {a : Nat} (ha : a = nullAddress ∨ a ∈ addresses) : a < 2 ^ 64 := by
    rcases ha with rfl | ha
    · decide
    · exact h.addresses_lt hfit a ha
  obtain ⟨hleft, hright⟩ := beside_of_mem_neighbours (List.of_mem_zip hx).1
  exact ⟨hbeside hleft, hbeside hright⟩

/-- A node stands where it was written. -/
theorem nodeAt (h : b.WroteLevel owner level chunks records addresses b')
    (hx : x ∈ levelPlaces addresses chunks) {node : TreeNode}
    (hdecode : TreeNode.decode (b.options.node owner x.1.2.1 level x.2.length x.1.1 x.1.2.2
      (records x.2)) = .ok node) (hcrc : node.crc = b.options.isV5) (hlevel : node.level = level) :
    b'.NodeAt x.1.2.1 level node := by
  have hin := (mem_of_mem_levelPlaces hx).1
  refine ⟨?_, fun {i} hi => ?_, ?_, ?_, hlevel⟩
  · rw [h.grows.options]
    exact h.placed _ hin
  · rw [h.grows.options] at hi
    exact (h.taken.fresh _ hin hi).2
  · rw [h.blocks x hx]
    exact hdecode
  · rw [h.grows.options]
    exact hcrc

/-- Leaves that were written make the lowest level of a tree. -/
theorem leaves {capacity : Nat} {extents : List Extent}
    (h : b.WroteLevel owner 0 (chunksOf capacity extents) b.options.leafFields addresses b')
    (horder : InOrder extents) (hne : extents ≠ []) (hcapacity : 0 < capacity)
    (hroom : capacity ≤ b.options.nodeRoom) (hfit : b.options.AddressesFit) :
    b'.LevelStands 0 (nodeLinks Extent.start addresses (chunksOf capacity extents))
      ((levelPlaces addresses (chunksOf capacity extents)).map (Medium.leafPart b.options)) := by
  refine ⟨?_, ?_, h.links_lt hfit _, ?_⟩
  · rw [nodeLinks_eq, PartsHold, List.forall₂_map_left_iff, List.forall₂_map_right_iff,
      List.forall₂_same]
    intro x hx
    obtain ⟨hfull, hshort⟩ := length_of_mem_chunksOf extents x.2 (mem_of_mem_levelPlaces hx).2
    obtain ⟨hleft, hright⟩ := h.beside_lt hfit hx
    have hchunk := List.length_pos_iff.mp hfull
    have hfits : ∀ e ∈ x.2, e.Fits := fun e he => horder.fits e (by
      rw [← flatten_chunksOf hcapacity extents]
      exact List.mem_flatten_of_mem (mem_of_mem_levelPlaces hx).2 he)
    have hnode := h.nodeAt hx (ImageOptions.decode_leaf hfits hchunk
      (Nat.le_trans hshort hroom) hleft hright) rfl rfl
    refine ⟨⟨_, x.2, hnode, rfl, ?_, rfl⟩, _, rfl, ?_⟩
    · rw [h.grows.options]
      rfl
    · obtain ⟨e, rest, hcons⟩ := List.exists_cons_of_ne_nil hchunk
      rw [hcons]
      simp [TreeLeaf.firstBlock?, Medium.placedTreeLeaf, hcons]
  · rw [Medium.allLeaves_leafParts, Medium.leafExtents_placed _ hcapacity h.length]
    exact horder
  · apply List.length_pos_iff.mp
    rw [(h.counts hcapacity _).1]
    exact blocksFor_pos hcapacity (List.length_pos_iff.mpr hne)

/-- The leaves that were written hold the extents and name one another, the first with none on its
left. -/
theorem leafChain {capacity : Nat} {extents : List Extent}
    (h : b.WroteLevel owner 0 (chunksOf capacity extents) b.options.leafFields addresses b')
    (hne : extents ≠ []) (hcapacity : 0 < capacity) {leaves : List StoredLeaf}
    (hleaves : leaves = (levelPlaces addresses (chunksOf capacity extents)).map
      (Medium.placedTreeLeaf b.options)) :
    leafExtents leaves = extents ∧ (∃ leaf ∈ leaves.head?, leaf.left = nullAddress) ∧
      Linked leaves ∧ (leaves.map fun leaf => leaf.block).Nodup := by
  have hsome : chunksOf capacity extents ≠ [] := by
    rw [chunksOf_eq_cons hcapacity hne]
    exact List.cons_ne_nil _ _
  have hdistinct := h.taken.apart.nodup
  rw [← addresses_levelPlaces h.length, List.map_map] at hdistinct
  rw [hleaves, List.map_map]
  exact ⟨Medium.leafExtents_placed _ hcapacity h.length, Medium.leftEnd_placed h.length hsome,
    Medium.linked_neighbours h.length.symm, hdistinct⟩

theorem takenLeaves {chunks : List (List Extent)} {records : List Extent → List Field}
    (h : b.WroteLevel owner 0 chunks records addresses b') :
    b.TakenSince (TreePart.allBlocks ((levelPlaces addresses chunks).map
      (Medium.leafPart b.options))) b' := by
  rw [Medium.allBlocks_leafParts, addresses_levelPlaces h.length]
  exact h.taken

theorem parents {fanout : Nat} {links : List TreeLink} {parts : List TreePart}
    (h : b.WroteLevel owner (level + 1) (chunksOf fanout links) b.options.interiorFields
      addresses b')
    (hb : b.Sound) (hstands : b.LevelStands level links parts) (hfanout : 0 < fanout)
    (hroom : fanout ≤ b.options.nodeRoom) (hlevel : level + 1 < 2 ^ 16)
    (hfit : b.options.AddressesFit) :
    b'.LevelStands (level + 1) (nodeLinks TreeLink.key addresses (chunksOf fanout links))
      ((levelPlaces addresses (chunksOf fanout parts)).map fun x => .node x.1.2.1 x.2) := by
  have hchunks := forall₂_chunksOf hfanout hstands.children
  have hlinks : (neighbours nullAddress nullAddress addresses).length =
      (chunksOf fanout links).length := by
    rw [length_neighbours, h.length]
  have hparts := hlinks.trans hchunks.length_eq
  refine ⟨?_, ?_, h.links_lt hfit _, ?_⟩
  · rw [nodeLinks_eq, PartsHold, List.forall₂_map_left_iff, List.forall₂_map_right_iff]
    refine (forall₂_zip_zip hchunks hlinks).imp ?_
    rintro x ⟨place, group⟩ ⟨hx, hgroup, rfl, hbelow⟩
    obtain ⟨hfull, hshort⟩ := length_of_mem_chunksOf links x.2 (List.of_mem_zip hx).2
    obtain ⟨hleft, hright⟩ := h.beside_lt hfit hx
    have hchunk := hstands.chunk hfanout (List.of_mem_zip hx).2 hgroup hbelow
    have hnode := h.nodeAt hx (ImageOptions.decode_interior hchunk.lt hchunk.increasing
      hchunk.nonempty (Nat.le_trans hshort hroom) hlevel hleft hright) rfl rfl
    have hstays := (hchunk.grows h.grows hb h.sound).children
    refine ⟨⟨_, x.2, group, hnode, rfl, hstays, rfl⟩, ?_⟩
    obtain ⟨link, rest, hcons⟩ := List.exists_cons_of_ne_nil hchunk.nonempty
    rw [hcons] at hstays ⊢
    exact hstays.first
  · rw [levelPlaces, TreePart.allLeaves_nodes (·.2.1) hparts, flatten_chunksOf hfanout]
    exact hstands.inOrder
  · apply List.length_pos_iff.mp
    rw [(h.counts hfanout _).1]
    exact blocksFor_pos hfanout (List.length_pos_iff.mpr hstands.nonempty)

/-- Nodes over a level have its leaves below them, and their blocks are taken besides those of the
level. -/
theorem takenParents {start : Builder} {fanout : Nat} {links : List TreeLink}
    {parts : List TreePart}
    (h : b.WroteLevel owner level (chunksOf fanout links) b.options.interiorFields addresses b')
    (hlength : links.length = parts.length) (hfanout : 0 < fanout)
    (hgrows : start.Grows (fun _ => False) b)
    (htaken : start.TakenSince (TreePart.allBlocks parts) b) {tops : List TreePart}
    (htops : tops = (levelPlaces addresses (chunksOf fanout parts)).map
      fun x => .node x.1.2.1 x.2) :
    TreePart.allLeaves tops = TreePart.allLeaves parts ∧
      start.TakenSince (TreePart.allBlocks tops) b' := by
  have hplaces : (neighbours nullAddress nullAddress addresses).length =
      (chunksOf fanout parts).length := by
    rw [length_neighbours, h.length, length_chunksOf hfanout, length_chunksOf hfanout, hlength]
  have hleaves := TreePart.allLeaves_nodes (·.2.1) hplaces
  have hblocks := TreePart.allBlocks_nodes (·.2.1) hplaces
  rw [flatten_chunksOf hfanout] at hleaves hblocks
  rw [middle_neighbours] at hblocks
  rw [htops]
  exact ⟨hleaves, (htaken.append hgrows h.taken h.grows).perm hblocks⟩

end WroteLevel

end Builder

namespace BuildM

open Builder

variable {α : Type} {b b' : Builder}

/-! ## Writing a level -/

theorem block_of_gives {address ag agBlock : Nat} {data : ByteArray} {u : Unit} (hb : b.Sound)
    (hrun : b.options.Run address 1 ag agBlock) (hsize : data.size = imageBlockSize)
    (h : Gives (writeBlocks address data) b u b') : b'.block address = data := by
  obtain rfl := gives_writeBlocks.mp h
  have hin := hrun.bytes_le Nat.one_pos
  rw [← hb.size, Nat.one_mul, ← hsize] at hin
  rw [block, ← hsize]
  exact window_overwrite_self hin

/-- The nodes have room for their records and stand on blocks of their own that were handed out. -/
structure NodesReady (b : Builder) (records : List α → List Field)
    (l : List ((Nat × Nat × Nat) × List α)) : Prop where
  laid : ∀ x ∈ l, Field.Laid b.options.nodeHeader imageBlockSize (records x.2)
  run : ∀ x ∈ l, ∃ ag agBlock, b.options.Run x.1.2.1 1 ag agBlock
  owned : ∀ x ∈ l, ∀ {i}, b.options.InBlocks x.1.2.1 1 i → b.Owns i
  apart : b.options.BlocksApart (l.map (·.1.2.1))

/-- What was handed out is still so when the first node has been written. -/
theorem NodesReady.tail {records : List α → List Field} {x : (Nat × Nat × Nat) × List α}
    {l : List ((Nat × Nat × Nat) × List α)} {spare : Nat → Prop} {mid : Builder}
    (h : NodesReady b records (x :: l)) (hg : b.Grows spare mid) : NodesReady mid records l where
  laid y hy := hg.options ▸ h.laid y (List.mem_cons_of_mem _ hy)
  run y hy := hg.options ▸ h.run y (List.mem_cons_of_mem _ hy)
  owned y hy i hi := by
    rw [hg.options] at hi
    exact hg.owns (h.owned y (List.mem_cons_of_mem _ hy) hi)
  apart := hg.options ▸ (List.pairwise_cons.mp h.apart).2

/-- The nodes that follow are written to other blocks than the first. -/
theorem NodesReady.first {records : List α → List Field} {x : (Nat × Nat × Nat) × List α}
    {l : List ((Nat × Nat × Nat) × List α)} (h : NodesReady b records (x :: l)) {i : Nat}
    (hi : b.options.InBlocks x.1.2.1 1 i) :
    b.Owns i ∧ ¬ ∃ y ∈ l, b.options.InBlocks y.1.2.1 1 i := by
  refine ⟨h.owned x List.mem_cons_self hi, ?_⟩
  rintro ⟨y, hy, hin⟩
  exact (List.pairwise_cons.mp h.apart).1 _ (List.mem_map_of_mem hy) hi hin

theorem blocks_of_writeNodes {owner level : Nat} {records : List α → List Field} {u : PUnit} :
    ∀ {l : List ((Nat × Nat × Nat) × List α)} {b : Builder}, b.Sound → NodesReady b records l →
      Gives (forIn l PUnit.unit fun ((left, address, right), chunk) _ => do
        writeBlocks address (blockOf imageBlockSize
          (b.options.nodeFields owner address level chunk.length left right ++ records chunk))
        pure (ForInStep.yield PUnit.unit)) b u b' →
      b'.taken = b.taken ∧ (∀ {i}, b.Owns i → b'.Owns i) ∧
        ∀ x ∈ l, b'.block x.1.2.1 = b.options.node owner x.1.2.1 level x.2.length x.1.1 x.1.2.2
          (records x.2) := by
  intro l
  induction l with
  | nil =>
      intro b _ _ h
      obtain ⟨-, rfl⟩ := gives_pure.mp h
      exact ⟨rfl, id, by simp⟩
  | cons x l ih =>
      obtain ⟨⟨left, address, right⟩, chunk⟩ := x
      intro b hb hready h
      obtain ⟨ag, agBlock, hfirst⟩ := hready.run _ List.mem_cons_self
      have hsize : (b.options.node owner address level chunk.length left right
          (records chunk)).size = imageBlockSize :=
        ImageOptions.size_node (hready.laid _ List.mem_cons_self)
      rw [List.forIn_cons, bind_assoc] at h
      obtain ⟨done, mid, hwrite, hrest⟩ := gives_bind.mp h
      rw [pure_bind] at hrest
      have hframe : Frames (b.options.InBlocks address 1) (writeBlocks address
          (b.options.node owner address level chunk.length left right (records chunk))) b :=
        frames_writeBlocks hfirst Nat.one_pos (by omega) id
      obtain ⟨hmid, hgrows⟩ := hframe.of_gives hb hwrite
      have htaken : mid.taken = b.taken := by
        rw [gives_writeBlocks.mp hwrite]
        rfl
      have hblock := block_of_gives hb hfirst hsize hwrite
      have hoptions := hgrows.options
      have hreadyRest := hready.tail hgrows
      rw [← hoptions] at hrest hfirst
      obtain ⟨htakenRest, hownAfter, hblocks⟩ := ih hmid hreadyRest hrest
      obtain ⟨hafter, hgrowsRest⟩ : b'.Sound ∧
          mid.Grows (fun i => ∃ x ∈ l, mid.options.InBlocks x.1.2.1 1 i) b' :=
        (frames_writeNodes mid.options hreadyRest.laid hreadyRest.run
          fun x hx _ hi => ⟨x, hx, hi⟩).of_gives hmid hrest
      refine ⟨htakenRest.trans htaken, fun hi => hownAfter (hgrows.owns hi),
        List.forall_mem_cons.mpr ⟨?_, ?_⟩⟩
      · rw [← hblock]
        refine hgrowsRest.block_eq hmid hafter hfirst fun {i} hi => ?_
        rw [hoptions] at hi ⊢
        obtain ⟨howned, hother⟩ := hready.first hi
        exact ⟨hgrows.owns howned, hother⟩
      · rw [← hoptions]
        exact hblocks

theorem wroteLevel_of_gives {owner level : Nat} {chunks : List (List α)} {key : α → Nat}
    {records : List α → List Field} {links : List TreeLink} (hb : b.Sound)
    (hlaid : ∀ chunk ∈ chunks, Field.Laid b.options.nodeHeader imageBlockSize (records chunk))
    (h : Gives (writeLevel owner level chunks key records) b links b') :
    ∃ addresses, links = nodeLinks key addresses chunks ∧
      b.WroteLevel owner level chunks records addresses b' := by
  have hframe : Frames (fun _ => False) (writeLevel owner level chunks key records) b :=
    frames_writeLevel hlaid
  obtain ⟨hsound, hgrows⟩ := hframe.of_gives hb h
  rw [writeLevel, gives_options_bind] at h
  obtain ⟨addresses, mid, htake, h⟩ := gives_bind.mp h
  obtain ⟨done, left, hwrite, h⟩ := gives_bind.mp h
  obtain ⟨rfl, rfl⟩ := gives_pure.mp h
  obtain ⟨hlength, hgained⟩ := gainedAll_of_gives htake hb
  obtain ⟨hmid, hoptions, -⟩ := hgained.sound hb
  have htaken := hgained.takenSince hb
  have hin : ∀ x ∈ levelPlaces addresses chunks, x.1.2.1 ∈ addresses := fun x hx =>
    (mem_of_mem_levelPlaces hx).1
  have hplaced := fun a ha => (hgained.block a ha).1
  have hlaidMid := hlaid
  rw [← hoptions] at hlaidMid hwrite
  have hready : NodesReady mid records (levelPlaces addresses chunks) := by
    constructor
    · exact fun x hx => hlaidMid x.2 (mem_of_mem_levelPlaces hx).2
    · intro x hx
      rw [hoptions]
      exact hplaced _ (hin x hx)
    · intro x hx i hi
      rw [hoptions] at hi
      exact (htaken.fresh _ (hin x hx) hi).2
    · rw [hoptions, addresses_levelPlaces hlength]
      exact htaken.apart
  obtain ⟨hsame, hown, hblocks⟩ := blocks_of_writeNodes hmid hready hwrite
  refine ⟨addresses, rfl, hsound, hgrows, hlength, hplaced, ⟨?_, htaken.apart, ?_⟩, ?_⟩
  · rw [hsame, htaken.count]
  · intro a ha i hi
    obtain ⟨hfree, howned⟩ := htaken.fresh a ha hi
    exact ⟨hfree, hown howned⟩
  · rw [← hoptions]
    exact hblocks

theorem exists_gives_writeNodes (owner level : Nat) (records : List α → List Field)
    (o : ImageOptions) : ∀ (l : List ((Nat × Nat × Nat) × List α)) (b : Builder),
      ∃ b', Gives (forIn l PUnit.unit fun ((left, address, right), chunk) _ => do
        writeBlocks address (blockOf imageBlockSize
          (o.nodeFields owner address level chunk.length left right ++ records chunk))
        pure (ForInStep.yield PUnit.unit)) b PUnit.unit b'
  | [], b => ⟨b, gives_pure.mpr ⟨rfl, rfl⟩⟩
  | ((left, address, right), chunk) :: l, b => by
      obtain ⟨b', hrest⟩ := exists_gives_writeNodes owner level records o l { b with
        image := overwrite b.image (b.options.blockOffset address) (blockOf imageBlockSize
          (o.nodeFields owner address level chunk.length left right ++ records chunk)) }
      refine ⟨b', ?_⟩
      rw [List.forIn_cons, bind_assoc]
      refine gives_bind.mpr ⟨PUnit.unit, _, gives_writeBlocks.mpr rfl, ?_⟩
      rw [pure_bind]
      exact hrest

theorem exists_gives_writeLevel (owner level : Nat) (chunks : List (List α)) (key : α → Nat)
    (records : List α → List Field) (hb : b.Sound)
    (hleft : b.taken + chunks.length ≤ b.options.totalBlocks) :
    ∃ links b', Gives (writeLevel owner level chunks key records) b links b' := by
  obtain ⟨addresses, mid, htake⟩ := exists_gives_allocateAll hb hleft
  obtain ⟨b', hwrite⟩ := exists_gives_writeNodes owner level records b.options
    (levelPlaces addresses chunks) mid
  refine ⟨nodeLinks key addresses chunks, b', ?_⟩
  rw [writeLevel, gives_options_bind]
  exact gives_bind.mpr ⟨addresses, mid, htake,
    gives_bind.mpr ⟨PUnit.unit, b', hwrite, gives_pure.mpr ⟨rfl, rfl⟩⟩⟩

/-! ## Writing a tree -/

theorem gives_writeLevels_succ {owner fanout limit fuel height used : Nat} {links : List TreeLink}
    {answer : Nat × List TreeLink × Nat} :
    Gives (writeLevels owner fanout limit (fuel + 1) height links used) b answer b' ↔
      if links.length ≤ limit then answer = (height, links, used) ∧ b' = b
      else ∃ parents mid, Gives (writeLevel owner (height + 1) (chunksOf fanout links) TreeLink.key
          b.options.interiorFields) b parents mid ∧
        Gives (writeLevels owner fanout limit fuel (height + 1) parents
          (used + (chunksOf fanout links).length)) mid answer b' := by
  rw [writeLevels]
  by_cases hfew : links.length ≤ limit
  · rw [if_pos hfew, if_pos hfew, gives_pure]
  · rw [if_neg hfew, if_neg hfew, gives_options_bind, gives_bind]

theorem gives_writeTree {owner : Nat} {extents : List Extent} {shape : TreeShape}
    {fork : ForkDraft} :
    Gives (writeTree owner extents shape) b fork b' ↔
      extents ≠ [] ∧ 1 ≤ shape.leafCapacity ∧ 2 ≤ shape.fanout ∧
        ∃ leaves mid height links used,
          Gives (writeLevel owner 0 (chunksOf (min shape.leafCapacity b.options.nodeRoom) extents)
            Extent.start b.options.leafFields) b leaves mid ∧
          Gives (writeLevels owner (min shape.fanout b.options.nodeRoom)
            (min (min shape.fanout b.options.nodeRoom) b.options.rootRoom) leaves.length 0 leaves
            (chunksOf (min shape.leafCapacity b.options.nodeRoom) extents).length) mid
            (height, links, used) b' ∧
          fork = { format := .btree, bytes := b.options.rootFork (height + 1) links,
                   treeBlocks := used } := by
  rw [writeTree, gives_guard, gives_guard, gives_options_bind]
  simp only [gives_bind, gives_pure, Bool.or_eq_true, decide_eq_true_eq, not_or, Nat.not_lt,
    List.isEmpty_iff, Prod.exists, and_assoc, ne_eq]
  constructor
  · rintro ⟨hne, hcapacity, hfanout, leaves, mid, hleaves, height, links, used, _, hlevels, rfl, rfl⟩
    exact ⟨hne, hcapacity, hfanout, leaves, mid, height, links, used, hleaves, hlevels, rfl⟩
  · rintro ⟨hne, hcapacity, hfanout, leaves, mid, height, links, used, hleaves, hlevels, rfl⟩
    exact ⟨hne, hcapacity, hfanout, leaves, mid, hleaves, height, links, used, _, hlevels, rfl, rfl⟩

section

variable {owner fanout limit : Nat}

theorem wroteParents_of_gives {level : Nat} {links parents : List TreeLink} (hb : b.Sound)
    (hroom : fanout ≤ b.options.nodeRoom)
    (h : Gives (writeLevel owner level (chunksOf fanout links) TreeLink.key
      b.options.interiorFields) b parents b') :
    ∃ addresses, parents = nodeLinks TreeLink.key addresses (chunksOf fanout links) ∧
      b.WroteLevel owner level (chunksOf fanout links) b.options.interiorFields addresses b' :=
  wroteLevel_of_gives hb (fun chunk hchunk => ImageOptions.laid_interiorFields
    (Nat.le_trans (length_of_mem_chunksOf links chunk hchunk).2 hroom)) h

/-- How many levels are put on top of a level, and how many blocks they take, depends on the number
of links alone; few enough links are left then. -/
theorem count_writeLevels (hfanout : 2 ≤ fanout) (hlimit : 0 < limit) :
    ∀ {fuel height used : Nat} {links : List TreeLink} {b : Builder}
      {answer : Nat × List TreeLink × Nat}, b.Sound → fanout ≤ b.options.nodeRoom →
      links.length ≤ fuel →
      Gives (writeLevels owner fanout limit fuel height links used) b answer b' →
      answer.1 = height + levelsAbove fanout limit fuel links.length ∧ answer.2.1.length ≤ limit ∧
        answer.2.2 = used + blocksAbove fanout limit fuel links.length ∧
        b'.taken = b.taken + blocksAbove fanout limit fuel links.length := by
  intro fuel
  induction fuel with
  | zero =>
    intro height used links b answer _ _ hfuel h
    obtain ⟨rfl, rfl⟩ := gives_pure.mp h
    exact ⟨rfl, Nat.le_trans hfuel (Nat.zero_le _), rfl, rfl⟩
  | succ fuel ih =>
    intro height used links b answer hb hroom hfuel h
    rw [gives_writeLevels_succ] at h
    rw [levelsAbove, blocksAbove]
    by_cases hfew : links.length ≤ limit
    · rw [if_pos hfew] at h ⊢
      obtain ⟨rfl, rfl⟩ := h
      rw [if_pos hfew]
      exact ⟨rfl, hfew, rfl, rfl⟩
    · rw [if_neg hfew] at h ⊢
      obtain ⟨parents, mid, hwrite, hrest⟩ := h
      obtain ⟨addresses, rfl, hwrote⟩ := wroteParents_of_gives hb hroom hwrite
      have hcount := length_chunksOf (show 0 < fanout by omega) links
      obtain ⟨hlength, hmid⟩ := hwrote.counts (show 0 < fanout by omega) TreeLink.key
      have hshorter := blocksFor_lt_self hfanout (show 2 ≤ links.length by omega)
      -- a level has fewer nodes than links, so that the fuel lasts until few enough are left
      obtain ⟨hheight, hleft, hused, htaken⟩ := ih hwrote.sound
        (by rwa [hwrote.grows.options]) (by omega) hrest
      rw [hlength] at hheight hused htaken
      rw [if_neg hfew]
      exact ⟨by omega, hleft, by omega, by omega⟩

variable (owner) in
theorem exists_gives_writeLevels (hfanout : 0 < fanout) :
    ∀ (fuel height used : Nat) {links : List TreeLink} {b : Builder}, b.Sound →
      fanout ≤ b.options.nodeRoom →
      b.taken + blocksAbove fanout limit fuel links.length ≤ b.options.totalBlocks →
      ∃ answer b', Gives (writeLevels owner fanout limit fuel height links used) b answer b' := by
  intro fuel
  induction fuel with
  | zero =>
    intro height used links b _ _ _
    exact ⟨_, _, gives_pure.mpr ⟨rfl, rfl⟩⟩
  | succ fuel ih =>
    intro height used links b hb hroom hleft
    simp only [gives_writeLevels_succ]
    rw [blocksAbove] at hleft
    by_cases hfew : links.length ≤ limit
    · simp only [if_pos hfew]
      exact ⟨_, _, rfl, rfl⟩
    · simp only [if_neg hfew] at hleft ⊢
      have hcount := length_chunksOf hfanout links
      obtain ⟨parents, mid, hwrite⟩ := exists_gives_writeLevel owner (height + 1)
        (chunksOf fanout links) TreeLink.key b.options.interiorFields hb (by omega)
      obtain ⟨addresses, rfl, hwrote⟩ := wroteParents_of_gives hb hroom hwrite
      obtain ⟨hlength, hmid⟩ := hwrote.counts hfanout TreeLink.key
      obtain ⟨answer, b', hrest⟩ := ih (height + 1) (used + (chunksOf fanout links).length)
        hwrote.sound (by rwa [hwrote.grows.options])
        (by rw [hlength, hwrote.grows.options]; omega)
      exact ⟨answer, b', _, mid, hwrite, hrest⟩

/-- Levels put on top of a level stand over the same leaves, and all blocks below the links that are
left were taken for the tree. -/
theorem stands_writeLevels {start : Builder} (hfanout : 0 < fanout) :
    ∀ {fuel height used : Nat} {links : List TreeLink} {parts : List TreePart} {b : Builder}
      {answer : Nat × List TreeLink × Nat}, b.Sound → fanout ≤ b.options.nodeRoom →
      b.options.AddressesFit → b.LevelStands height links parts →
      start.Grows (fun _ => False) b → start.TakenSince (TreePart.allBlocks parts) b →
      height + levelsAbove fanout limit fuel links.length < 2 ^ 16 →
      Gives (writeLevels owner fanout limit fuel height links used) b answer b' →
      ∃ tops, b'.LevelStands answer.1 answer.2.1 tops ∧
        TreePart.allLeaves tops = TreePart.allLeaves parts ∧
        start.Grows (fun _ => False) b' ∧ start.TakenSince (TreePart.allBlocks tops) b' := by
  intro fuel
  induction fuel with
  | zero =>
    intro height used links parts b answer _ _ _ hstands hgrows htaken _ h
    obtain ⟨rfl, rfl⟩ := gives_pure.mp h
    exact ⟨parts, hstands, rfl, hgrows, htaken⟩
  | succ fuel ih =>
    intro height used links parts b answer hb hroom hfit hstands hgrows htaken hlevel h
    rw [gives_writeLevels_succ] at h
    rw [levelsAbove] at hlevel
    by_cases hfew : links.length ≤ limit
    · rw [if_pos hfew] at h
      obtain ⟨rfl, rfl⟩ := h
      exact ⟨parts, hstands, rfl, hgrows, htaken⟩
    · rw [if_neg hfew] at h hlevel
      obtain ⟨parents, mid, hwrite, hrest⟩ := h
      obtain ⟨addresses, rfl, hwrote⟩ := wroteParents_of_gives hb hroom hwrite
      obtain ⟨hlength, -⟩ := hwrote.counts hfanout TreeLink.key
      have hparents := hwrote.parents hb hstands hfanout hroom (by omega) hfit
      obtain ⟨hleaves, htakenMid⟩ := hwrote.takenParents hstands.children.length_eq hfanout hgrows
        htaken rfl
      rw [← hwrote.grows.options] at hroom hfit
      obtain ⟨tops, htops, hsame, hgrowsAll, htakenAll⟩ := ih hwrote.sound hroom hfit hparents
        (hgrows.trans hwrote.grows) htakenMid (by rw [hlength]; omega) hrest
      exact ⟨tops, htops, hsame.trans hleaves, hgrowsAll, htakenAll⟩

end

end BuildM

end XfsVolume
