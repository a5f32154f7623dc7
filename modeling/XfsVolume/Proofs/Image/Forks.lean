import XfsVolume.Proofs.Extent.Walks
import XfsVolume.Proofs.Image.TreeOnMedium

/-!
# Forks written and read back

A fork is a list of extents or a tree over them, whichever was written. An inode that holds the one
or the other, followed by zeros up to the end of its fork, holds the extents (`Medium.ForkHolds`).
-/

namespace XfsVolume

/-! ## Lists of extents -/

theorem carries_of_spells {b : ByteArray} {width : Nat} : ∀ {vs : List Nat} {off : Nat},
    (∀ v ∈ vs, v < 256 ^ width) → Spells b off (vs.flatMap (beBytes width)) →
      Carries b width off vs
  | [], _, _, _ => trivial
  | v :: vs, off, hlt, h => by
      rw [List.flatMap_cons, spells_append, length_beBytes] at h
      obtain ⟨hfirst, hrest⟩ := h
      refine ⟨?_, carries_of_spells (fun w hw => hlt w (List.mem_cons_of_mem _ hw)) hrest⟩
      rw [hfirst.beNat, Nat.mod_eq_of_lt (hlt v List.mem_cons_self)]

theorem flatMap_encode (extents : List Extent) :
    extents.flatMap Extent.encode = (extentNumbers extents).flatMap (beBytes 8) := by
  induction extents with
  | nil => rfl
  | cons e extents ih =>
    rw [List.flatMap_cons, ih, extentNumbers, extentNumbers, List.flatMap_cons,
      List.flatMap_append]
    congr 1

theorem length_flatMap_encode (extents : List Extent) :
    (extents.flatMap Extent.encode).length = extents.length * 16 := by
  induction extents with
  | nil => rfl
  | cons e extents ih =>
    rw [List.flatMap_cons, List.length_append, ih, List.length_cons, Extent.length_encode,
      Nat.add_mul]
    omega

namespace Medium

variable {m : Medium} {inode : Inode} {o : ImageOptions}

theorem forkHolds_inline (ho : o.Accepted) {extents : List Extent} (horder : InOrder extents)
    (hroom : extents.length * 16 ≤ o.literalLength) (hformat : inode.format = .extents)
    (hcount : inode.extents.toNat = extents.length)
    (hfork : inode.fork = overwrite (zeros o.literalLength) 0
      (extents.flatMap Extent.encode).toByteArray) :
    m.ForkHolds inode extents := by
  have hliteral := ho.literalLength_ge.2
  have hinode := ho.inodeSize
  have hlength := length_flatMap_encode extents
  have hin : 0 + (extents.flatMap Extent.encode).toByteArray.size ≤
      (zeros o.literalLength).size := by
    rw [List.size_toByteArray, hlength, size_zeros, Nat.zero_add]
    exact hroom
  have hsize : inode.fork.size = o.literalLength := by
    rw [hfork, size_overwrite hin, size_zeros]
  have hspells : Spells inode.fork 0 (extents.flatMap Extent.encode) := by
    rw [hfork]
    apply spells_overwrite
    rwa [List.size_toByteArray] at hin
  rw [flatMap_encode] at hspells
  have hdecode : Extent.decodeList inode.fork 0 extents.length = .ok extents := by
    apply Extent.decodeList_of_carries
    · rw [hsize, wordLimit, UInt64.size]
      omega
    · exact horder.fits
    · omega
    · exact carries_of_spells extentNumbers_lt hspells
  have hstored : Extent.ofFork inode.fork inode.extents.toNat = .ok extents := by
    rw [Extent.ofFork, hcount, if_neg (by omega), hdecode]
  have hwhole : inode.inlineExtents = .ok extents := by
    have hcheck : inode.checkInlineExtents = .ok () := if_neg (by
      rw [hcount, extentLength]
      omega)
    rw [Inode.inlineExtents, hcheck, ok_bind, hstored]
    rfl
  have hwalk : m.allExtents inode = .ok extents := by
    rw [allExtents, hformat]
    simp only [hwhole, ok_bind, checkExtents_eq_ok 0 horder (startsAfter_none extents)]
    rfl
  exact .inline hformat hstored hwalk

end Medium

namespace BuildM

open Builder

variable {m : Medium} {b b' : Builder} {spare : Nat → Prop} {owner : Nat}
  {extents : List Extent} {fork : ForkDraft}

/-! ## Trees -/

theorem writeTree_spec {shape : TreeShape} (hb : b.Sound) (horder : InOrder extents)
    (hlevel : b.options.treeLevel shape extents.length < 2 ^ 16)
    (h : Gives (writeTree owner extents shape) b fork b') (hk : m.Keeps spare b')
    (hs : ∀ {i}, spare i → b.Owns i) :
    fork.format = .btree ∧ fork.bytes.size = b.options.literalLength ∧
      b'.taken = b.taken + fork.treeBlocks ∧ ∃ links groups,
        TreeRoot.decode fork.bytes =
          .ok { level := b.options.treeLevel shape extents.length, links } ∧
        Medium.ChildrenHold (m.LeavesBelow (b.options.treeLevel shape extents.length - 1)) links
          groups ∧
        Linked groups.flatten ∧ leafExtents groups.flatten = extents ∧
        (groups.flatten.map fun leaf => leaf.block).Nodup := by
  obtain ⟨hsound, hgrows⟩ : b'.Sound ∧ b.Grows (fun _ => False) b' :=
    (frames_writeTree owner extents shape).of_gives hb h
  have hinMemory := hk.inMemory
  rw [hgrows.options] at hinMemory
  obtain ⟨links, parts, hwrote⟩ :=
    wroteTree_of_gives hb horder (ImageOptions.addressesFit_of_lt hinMemory.agBlocksLt
      hinMemory.agCountLt) hlevel h
  have hkept : ∀ a ∈ TreePart.allBlocks parts, ∀ {i}, b'.options.InBlocks a 1 i → ¬ spare i := by
    intro a ha i hi hspare
    rw [hgrows.options] at hi
    exact (hwrote.taken.fresh a ha hi).1 (hs hspare)
  refine ⟨hwrote.format, hwrote.size, ?_, links, _, hwrote.root,
    hk.childrenHold hsound hwrote.stands.children hkept, ?_⟩
  · rw [hwrote.taken.count, hwrote.counted]
  · rw [Medium.flatten_leaves]
    exact ⟨hwrote.linked, hwrote.holds, hwrote.distinct⟩

/-! ## Any fork -/

theorem writeFork_spec {shape : Option TreeShape} (hb : b.Sound) (horder : InOrder extents)
    (hlevel : b.options.treeLevel (shape.getD .full) extents.length < maxTreeDepth)
    (h : Gives (writeFork owner extents shape) b fork b') (hk : m.Keeps spare b')
    (hs : ∀ {i}, spare i → b.Owns i) :
    fork.bytes.size ≤ b.options.literalLength ∧ b'.taken = b.taken + fork.treeBlocks ∧
      ∀ inode : Inode, inode.format = fork.format → inode.extents.toNat = extents.length →
        inode.fork = overwrite (zeros b.options.literalLength) 0 fork.bytes →
        m.ForkHolds inode extents := by
  rw [writeFork, gives_options_bind, gives_ite] at h
  split at h
  · rename_i hinline
    obtain ⟨rfl, rfl⟩ := gives_pure.mp h
    rw [Bool.and_eq_true, decide_eq_true_eq] at hinline
    refine ⟨?_, rfl, fun inode hformat hcount hfork => ?_⟩
    · rw [List.size_toByteArray, length_flatMap_encode]
      exact hinline.2
    · exact Medium.forkHolds_inline hb.accepted horder hinline.2 hformat hcount hfork
  · have hshort : maxTreeDepth = 8 := rfl
    obtain ⟨hformat, hsize, htaken, links, groups, hroot, hchildren, hlinked, hextents, hnodup⟩ :=
      writeTree_spec hb horder (by omega) h hk hs
    refine ⟨Nat.le_of_eq hsize, htaken, fun inode hsame hcount hfork => ?_⟩
    rw [overwrite_whole (by rw [hsize, size_zeros])] at hfork
    have hstored : m.StoredTree inode groups.flatten := by
      refine ⟨hsame.trans hformat, ?_, hnodup, hlinked, ?_, ?_⟩
      · rw [hfork]
        exact ⟨_, groups, hroot, hlevel, hchildren, rfl⟩
      · rw [hextents]
        exact horder
      · rw [hextents]
        exact hcount
    rw [← hextents]
    exact .tree hstored

end BuildM

end XfsVolume
