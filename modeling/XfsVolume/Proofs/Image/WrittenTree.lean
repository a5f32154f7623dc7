import XfsVolume.Proofs.Image.TreeLevels

/-!
# A tree that was written

Writing a tree succeeds when there are blocks for its nodes, and then decoding the fork, and from
there block after block, leads to the extents in their order (`BuildM.writeTree_faithful`).
-/

namespace XfsVolume

namespace Builder

/-- `b'` is `b` after a tree over `extents` was written for `fork`. Decoding the fork gives `links`,
and `parts` is what lies below them. -/
structure WroteTree (b : Builder) (extents : List Extent) (shape : TreeShape) (fork : ForkDraft)
    (links : List TreeLink) (parts : List TreePart) (b' : Builder) : Prop where
  format : fork.format = .btree
  size : fork.bytes.size = b.options.literalLength
  root : TreeRoot.decode fork.bytes =
    .ok { level := b.options.treeLevel shape extents.length, links }
  few : links.length ≤ min shape.fanout b.options.rootRoom
  /-- Each level stands one below its parent's, and each key is the first file block below it. -/
  stands : b'.LevelStands (b.options.treeLevel shape extents.length - 1) links parts
  holds : leafExtents (TreePart.allLeaves parts) = extents
  leftEnd : ∃ leaf ∈ (TreePart.allLeaves parts).head?, leaf.left = nullAddress
  linked : Linked (TreePart.allLeaves parts)
  /-- No block is a leaf twice. -/
  distinct : ((TreePart.allLeaves parts).map fun leaf => leaf.block).Nodup
  taken : b.TakenSince (TreePart.allBlocks parts) b'
  counted : (TreePart.allBlocks parts).length = fork.treeBlocks
  grows : b.Grows (fun _ => False) b'

end Builder

namespace BuildM

open Builder

variable {b b' : Builder} {owner : Nat} {extents : List Extent} {shape : TreeShape}
  {fork : ForkDraft}

/-! ## Leaves -/

theorem wroteLeaves_of_gives {capacity : Nat} {links : List TreeLink} (hb : b.Sound)
    (hroom : capacity ≤ b.options.nodeRoom)
    (h : Gives (writeLevel owner 0 (chunksOf capacity extents) Extent.start b.options.leafFields)
      b links b') :
    ∃ addresses, links = nodeLinks Extent.start addresses (chunksOf capacity extents) ∧
      b.WroteLevel owner 0 (chunksOf capacity extents) b.options.leafFields addresses b' :=
  wroteLevel_of_gives hb (fun chunk hchunk => ImageOptions.laid_leafFields
    (Nat.le_trans (length_of_mem_chunksOf extents chunk hchunk).2 hroom)) h

/-! ## Blocks of a tree -/

theorem count_writeTree (hb : b.Sound) (h : Gives (writeTree owner extents shape) b fork b') :
    fork.treeBlocks = b.options.treeBlocks shape extents.length ∧
      b'.taken = b.taken + fork.treeBlocks := by
  obtain ⟨-, hcapacity, hfanout, leaves, mid, height, links, used, hleaves, hlevels, rfl⟩ :=
    gives_writeTree.mp h
  have hheader := b.options.nodeHeader_le
  have hroot := ImageOptions.rootRoom_bounds hb.accepted
  obtain ⟨addresses, rfl, hwrote⟩ := wroteLeaves_of_gives hb (Nat.min_le_right _ _) hleaves
  have hpos : 0 < min shape.leafCapacity b.options.nodeRoom := by omega
  have hchunks := length_chunksOf hpos extents
  obtain ⟨hlength, hmid⟩ := hwrote.counts hpos Extent.start
  obtain ⟨-, -, hused, htaken⟩ := count_writeLevels (by omega) (by omega) hwrote.sound
    (by rw [hwrote.grows.options]; exact Nat.min_le_right _ _) (Nat.le_refl _) hlevels
  rw [hlength] at hused htaken
  dsimp only at hused ⊢
  rw [hchunks] at hused
  rw [ImageOptions.treeBlocks]
  exact ⟨hused, by omega⟩

theorem exists_gives_writeTree (hb : b.Sound) (hne : extents ≠ [])
    (hcapacity : 1 ≤ shape.leafCapacity) (hfanout : 2 ≤ shape.fanout)
    (hleft : b.taken + b.options.treeBlocks shape extents.length ≤ b.options.totalBlocks) :
    ∃ fork b', Gives (writeTree owner extents shape) b fork b' := by
  have hheader := b.options.nodeHeader_le
  have hpos : 0 < min shape.leafCapacity b.options.nodeRoom := by omega
  have hchunks := length_chunksOf hpos extents
  rw [ImageOptions.treeBlocks] at hleft
  obtain ⟨leaves, mid, hleaves⟩ := exists_gives_writeLevel owner 0
    (chunksOf (min shape.leafCapacity b.options.nodeRoom) extents) Extent.start
    b.options.leafFields hb (by omega)
  obtain ⟨addresses, rfl, hwrote⟩ := wroteLeaves_of_gives hb (Nat.min_le_right _ _) hleaves
  obtain ⟨hlength, hmid⟩ := hwrote.counts hpos Extent.start
  have hleftMid : mid.taken + blocksAbove (min shape.fanout b.options.nodeRoom)
      (min (min shape.fanout b.options.nodeRoom) b.options.rootRoom)
      (blocksFor extents.length (min shape.leafCapacity b.options.nodeRoom))
      (blocksFor extents.length (min shape.leafCapacity b.options.nodeRoom)) ≤
        mid.options.totalBlocks := by
    rw [hwrote.grows.options]
    omega
  rw [← hlength] at hleftMid
  obtain ⟨⟨height, links, used⟩, b', hlevels⟩ := exists_gives_writeLevels owner
    (by omega) _ 0 _ hwrote.sound (by rw [hwrote.grows.options]; exact Nat.min_le_right _ _) hleftMid
  exact ⟨_, b', gives_writeTree.mpr ⟨hne, hcapacity, hfanout, _, mid, height, links, used, hleaves,
    hlevels, rfl⟩⟩

/-! ## The tree -/

theorem wroteTree_of_gives (hb : b.Sound) (horder : InOrder extents)
    (hfit : b.options.AddressesFit)
    (hlevel : b.options.treeLevel shape extents.length < 2 ^ 16)
    (h : Gives (writeTree owner extents shape) b fork b') :
    ∃ links parts, b.WroteTree extents shape fork links parts b' := by
  have hcounted := count_writeTree hb h
  obtain ⟨hne, hcapacity, hfanout, leaves, mid, height, links, used, hleaves, hlevels, hfork⟩ :=
    gives_writeTree.mp h
  have hheader := b.options.nodeHeader_le
  have hroot := ImageOptions.rootRoom_bounds hb.accepted
  have hpos : 0 < min shape.leafCapacity b.options.nodeRoom := by omega
  obtain ⟨addresses, rfl, hwrote⟩ := wroteLeaves_of_gives hb (Nat.min_le_right _ _) hleaves
  obtain ⟨hlength, -⟩ := hwrote.counts hpos Extent.start
  have hroom : min shape.fanout b.options.nodeRoom ≤ mid.options.nodeRoom := by
    rw [hwrote.grows.options]
    exact Nat.min_le_right _ _
  have hstands := hwrote.leaves horder hne hpos (Nat.min_le_right _ _) hfit
  obtain ⟨hextents, hleftEnd, hlinked, hdistinct⟩ := hwrote.leafChain hne hpos rfl
  have hfitMid : mid.options.AddressesFit := by
    rw [hwrote.grows.options]
    exact hfit
  obtain ⟨hheight, hfew, -, -⟩ :=
    count_writeLevels (by omega) (by omega) hwrote.sound hroom (Nat.le_refl _) hlevels
  have htreeLevel : b.options.treeLevel shape extents.length = height + 1 := by
    rw [ImageOptions.treeLevel, ← hlength]
    dsimp only at hheight ⊢
    omega
  rw [htreeLevel] at hlevel
  dsimp only at hheight hfew
  obtain ⟨tops, htops, hsame, hgrows, htakenAll⟩ := stands_writeLevels (by omega) hwrote.sound hroom
    hfitMid hstands hwrote.grows hwrote.takenLeaves (by omega) hlevels
  dsimp only at htops
  obtain ⟨hsize, hdecode⟩ := ImageOptions.decode_rootFork hb.accepted htops.lt htops.increasing
    htops.nonempty (by omega) hlevel (Nat.succ_pos height)
  rw [Medium.allLeaves_leafParts] at hsame
  rw [← hsame] at hextents hleftEnd hlinked hdistinct
  have hbytes : fork.bytes = b.options.rootFork (height + 1) links := by rw [hfork]
  rw [← hbytes] at hsize hdecode
  refine ⟨links, tops, by rw [hfork], hsize, ?_, by omega, ?_, hextents, hleftEnd, hlinked,
    hdistinct, htakenAll, ?_, hgrows⟩
  · rw [htreeLevel]
    exact hdecode
  · rw [htreeLevel]
    exact htops
  · have hall := htakenAll.count
    have hsum := hcounted.2
    omega

theorem treeLevel_le {o : ImageOptions} {n : Nat} (ho : o.Accepted) (hfanout : 2 ≤ shape.fanout)
    (hblocks : o.treeBlocks shape n < 2 ^ 64) : o.treeLevel shape n ≤ 64 := by
  have hheader := o.nodeHeader_le
  have hroot := ImageOptions.rootRoom_bounds ho
  rw [ImageOptions.treeBlocks] at hblocks
  have hlimit : 2 ≤ min (min shape.fanout o.nodeRoom) o.rootRoom := by omega
  have hpow : 2 ^ 63 ≤ min shape.fanout o.nodeRoom ^ 63 := Nat.pow_le_pow_left (by omega) 63
  have hmul : 2 * 2 ^ 63 ≤ min (min shape.fanout o.nodeRoom) o.rootRoom *
      min shape.fanout o.nodeRoom ^ 63 := Nat.mul_le_mul hlimit hpow
  rw [ImageOptions.treeLevel]
  exact Nat.succ_le_succ (levelsAbove_le (by omega) (by omega))

/-- Writing a tree over extents in order is faithful. It succeeds exactly when there are blocks for
the nodes, and then decoding the fork and the blocks it leads to gives a tree over these extents, all
of whose blocks were taken for it. -/
theorem writeTree_faithful (owner : Nat) (hb : b.Sound) (hblocks : b.options.agBlocks < 2 ^ 32)
    (hcount : b.options.agCount < 2 ^ 32) (hne : extents ≠ []) (horder : InOrder extents)
    (hcapacity : 1 ≤ shape.leafCapacity) (hfanout : 2 ≤ shape.fanout) :
    ((∃ fork b', Gives (writeTree owner extents shape) b fork b') ↔
        b.taken + b.options.treeBlocks shape extents.length ≤ b.options.totalBlocks) ∧
      ∀ {fork b'}, Gives (writeTree owner extents shape) b fork b' →
        ∃ links parts, b.WroteTree extents shape fork links parts b' := by
  have hfits : ∀ {fork b'}, Gives (writeTree owner extents shape) b fork b' →
      b.taken + b.options.treeBlocks shape extents.length ≤ b.options.totalBlocks := by
    intro fork b' h
    obtain ⟨hsound, hgrows⟩ : b'.Sound ∧ b.Grows (fun _ => False) b' :=
      (frames_writeTree owner extents shape).of_gives hb h
    obtain ⟨hused, htaken⟩ := count_writeTree hb h
    have hle := hsound.taken_le
    rw [hgrows.options] at hle
    omega
  refine ⟨⟨?_, exists_gives_writeTree hb hne hcapacity hfanout⟩, fun {fork b'} h => ?_⟩
  · rintro ⟨fork, b', h⟩
    exact hfits h
  · have htotal : b.options.totalBlocks < 2 ^ 32 * 2 ^ 32 := Nat.mul_lt_mul'' hblocks hcount
    have hroom := hfits h
    have hlevel : b.options.treeLevel shape extents.length ≤ 64 :=
      treeLevel_le hb.accepted hfanout (by omega)
    exact wroteTree_of_gives hb horder (ImageOptions.addressesFit_of_lt hblocks hcount) (by omega) h

/-- Five extents of a block, one to a leaf, take ten blocks below a root at level three. -/
theorem writeTree_faithful_five :
    ∃ fork links parts b',
      Gives (writeTree 8 ((List.range 5).map fun k => ⟨2 * k, k + 1, 1, false⟩) ⟨1, 2⟩)
        (Builder.empty { agBlocks := 16, agCount := 1 }) fork b' ∧
      (Builder.empty { agBlocks := 16, agCount := 1 }).WroteTree
        ((List.range 5).map fun k => ⟨2 * k, k + 1, 1, false⟩) ⟨1, 2⟩ fork links parts b' ∧
      TreeRoot.decode fork.bytes = .ok { level := 3, links } ∧ fork.treeBlocks = 10 := by
  obtain ⟨haccepted, -⟩ : ImageOptions.Accepted { agBlocks := 16, agCount := 1 } ∧ _ :=
    ofOptions_eq_ok.mp rfl
  have hsound := sound_empty haccepted
  have horder : InOrder ((List.range 5).map fun k => (⟨2 * k, k + 1, 1, false⟩ : Extent)) := by
    refine ⟨fun e he => ?_, by decide, by decide⟩
    obtain ⟨k, hk, rfl⟩ := List.mem_map.mp he
    have hlt := List.mem_range.mp hk
    refine ⟨?_, ?_, show 1 < 2 ^ 21 by decide⟩
    · show 2 * k < 2 ^ 54
      omega
    · show k + 1 < 2 ^ 52
      omega
  obtain ⟨hroom, hfaithful⟩ := writeTree_faithful 8 hsound (by decide) (by decide)
    (List.cons_ne_nil _ _) horder (show 1 ≤ (⟨1, 2⟩ : TreeShape).leafCapacity by decide) (by decide)
  obtain ⟨fork, b', h⟩ := hroom.mpr (by decide)
  obtain ⟨links, parts, hwrote⟩ := hfaithful h
  exact ⟨fork, links, parts, b', h, hwrote, hwrote.root, (count_writeTree hsound h).1⟩

end BuildM

end XfsVolume
