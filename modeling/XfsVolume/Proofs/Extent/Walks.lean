import Mathlib.Data.List.Perm.Subperm
import XfsVolume.Fields
import XfsVolume.Proofs.Extent.LeafChains

/-!
# Walks over the extents of a fork

A fork holds one list of extents (`ForkHolds`): the list stored in the inode, when it is accepted,
or what the leaves of a well-formed tree hold from left to right. The three walks agree with that
list. A walk along the leaves needs fewer links than the tree has leaves, which are at most as many
as its extents and as the blocks of the volume, so the bound on links never stops it.
-/

namespace XfsVolume

theorem Linked.tail {leaf : StoredLeaf} {rest : List StoredLeaf} (h : Linked (leaf :: rest)) :
    Linked rest := by
  cases rest with
  | nil => trivial
  | cons next rest => exact h.2.2

theorem Linked.suffix : ∀ {pre rest : List StoredLeaf}, Linked (pre ++ rest) → Linked rest
  | [], _, h => h
  | _ :: _, _, h => Linked.suffix h.tail

namespace Medium

variable {m : Medium} {inode : Inode}

/-! ## From leaf to leaf -/

theorem rightLeaf_eq (hs : m.device.Sized) {leaf next : StoredLeaf} {rest : List StoredLeaf}
    (hl : Linked (leaf :: next :: rest)) (hn : m.LeafAt next) :
    m.rightLeaf leaf.toTreeLeaf = .ok next.toTreeLeaf := by
  obtain ⟨hright, hleft, -⟩ := hl
  obtain ⟨node, hnode, hbody, hr, hl⟩ := hn
  rw [rightLeaf, hright, hnode.read hs, ok_bind]
  simp only [hbody, hr, hl, hleft, ne_eq, not_true_eq_false, if_false, pure_eq_ok]

theorem right_ne_null {leaf next : StoredLeaf} {rest : List StoredLeaf}
    (hl : Linked (leaf :: next :: rest)) (hn : m.LeafAt next) : leaf.right ≠ nullAddress := by
  obtain ⟨node, hnode, -⟩ := hn
  rw [hl.1]
  intro hnull
  have hplaced := hnode.placed
  rw [hnull] at hplaced
  exact m.geometry.deviceBlock_null hplaced

theorem chainExtents_map (leaves : List StoredLeaf) :
    chainExtents (leaves.map StoredLeaf.toTreeLeaf) = leafExtents leaves := List.flatMap_map ..

theorem leafChain_of_linked (hs : m.device.Sized) : ∀ {rest : List StoredLeaf} {leaf : StoredLeaf},
    Linked (leaf :: rest) → (∀ l ∈ rest, m.LeafAt l) →
      m.LeafChain ((leaf :: rest).map StoredLeaf.toTreeLeaf)
  | [], _, hl, _ => .last hl
  | next :: _, _, hl, hleaves => by
      have hnext := hleaves next List.mem_cons_self
      exact .link (right_ne_null hl hnext) (rightLeaf_eq hs hl hnext)
        (leafChain_of_linked hs hl.tail fun l hm => hleaves l (List.mem_cons_of_mem _ hm))

/-- A search from a leaf on finds the extent that holds the file block in that leaf or a later one,
and reports a missing block where none does. -/
theorem findFrom_eq (hs : m.device.Sized) (inode : Inode) (logical : Nat)
    {rest : List StoredLeaf} {leaf : StoredLeaf} (links : Nat) {prevEnd : Option Nat}
    (hl : Linked (leaf :: rest)) (hleaves : ∀ l ∈ rest, m.LeafAt l)
    (ho : InOrder (leafExtents (leaf :: rest)))
    (hp : StartsAfter prevEnd (leafExtents (leaf :: rest))) (hlinks : rest.length ≤ links) :
    (∀ e ∈ leafExtents (leaf :: rest), e.Holds logical →
      m.findFrom inode logical links prevEnd leaf.toTreeLeaf = .ok e) ∧
    ((∀ e ∈ leafExtents (leaf :: rest), ¬ e.Holds logical) →
      m.findFrom inode logical links prevEnd leaf.toTreeLeaf =
        .error (.extentNotFound logical)) := by
  have hchain := leafChain_of_linked hs hl hleaves
  rw [← chainExtents_map] at ho hp ⊢
  exact hchain.findFrom_eq inode logical links ho hp (by rwa [List.length_map])

theorem extentsFrom_eq (hs : m.device.Sized) {rest : List StoredLeaf} {leaf : StoredLeaf}
    (links : Nat) {prevEnd : Option Nat} (hl : Linked (leaf :: rest))
    (hleaves : ∀ l ∈ rest, m.LeafAt l) (ho : InOrder (leafExtents (leaf :: rest)))
    (hp : StartsAfter prevEnd (leafExtents (leaf :: rest))) (hlinks : rest.length ≤ links) :
    m.extentsFrom inode links prevEnd leaf.toTreeLeaf = .ok (leafExtents (leaf :: rest)) := by
  have hchain := leafChain_of_linked hs hl hleaves
  rw [← chainExtents_map] at ho hp ⊢
  exact hchain.extentsFrom_eq inode links ho hp (by rwa [List.length_map])

/-! ## Well-formed trees -/

theorem length_le_leafExtents : ∀ {leaves : List StoredLeaf}, (∀ l ∈ leaves, m.LeafAt l) →
    leaves.length ≤ (leafExtents leaves).length
  | [], _ => Nat.le_refl _
  | leaf :: leaves, h => by
      have hpos := List.length_pos_iff.mpr (h leaf List.mem_cons_self).extents_ne_nil
      have hrec := length_le_leafExtents fun l hl => h l (List.mem_cons_of_mem _ hl)
      rw [leafExtents_cons, List.length_append, List.length_cons]
      omega

theorem length_le_of_nodup_lt {ns : List Nat} {bound : Nat} (hd : ns.Nodup)
    (hlt : ∀ n ∈ ns, n < bound) : ns.length ≤ bound := by
  have hsub : ns.Subperm (List.range bound) :=
    hd.subperm fun n hn => List.mem_range.mpr (hlt n hn)
  have hle := hsub.length_le
  rwa [List.length_range] at hle

/-- A well-formed tree has at most as many leaves as a walk may enter. -/
theorem StoredTree.length_le {leaves : List StoredLeaf} (h : m.StoredTree inode leaves) :
    leaves.length ≤ m.maxLinks inode := by
  have hextents := length_le_leafExtents h.leafAt
  have hblocks : (leaves.map fun leaf => leaf.block).length ≤ m.geometry.dataBlocks.toNat := by
    apply length_le_of_nodup_lt h.distinct
    intro b hb
    obtain ⟨leaf, hleaf, rfl⟩ := List.mem_map.mp hb
    obtain ⟨node, hnode, -⟩ := h.leafAt leaf hleaf
    exact hnode.inVolume
  rw [List.length_map] at hblocks
  rw [maxLinks, h.counted]
  exact Nat.le_min.mpr ⟨hextents, hblocks⟩

theorem StoredTree.allExtents_eq {leaves : List StoredLeaf} (hs : m.device.Sized)
    (h : m.StoredTree inode leaves) : m.allExtents inode = .ok (leafExtents leaves) := by
  obtain ⟨pre, leaf, post, rfl, rfl, hentry⟩ := entryLeaf_eq hs choice_first h
  have hlen := h.length_le
  have hleaves := h.leafAt
  rw [List.nil_append] at h hlen hleaves ⊢
  rw [List.length_cons] at hlen
  rw [allExtents, h.format]
  simp only [hentry, ok_bind]
  exact extentsFrom_eq hs _ h.linked (fun l hl => hleaves l (List.mem_cons_of_mem _ hl)) h.inOrder
    (startsAfter_none _) (by omega)

theorem StoredTree.lastExtent?_eq {leaves : List StoredLeaf} (hs : m.device.Sized)
    (h : m.StoredTree inode leaves) :
    m.lastExtent? inode = .ok (leafExtents leaves).getLast? := by
  obtain ⟨pre, leaf, post, rfl, rfl, hentry⟩ := entryLeaf_eq hs choice_last h
  have hnull : leaf.right = nullAddress := h.linked.suffix
  have hne := (h.leafAt leaf (List.mem_append_right _ List.mem_cons_self)).extents_ne_nil
  rw [lastExtent?, h.format]
  simp only [hentry, ok_bind]
  have hlast : m.lastLeafFrom inode (m.maxLinks inode) leaf.toTreeLeaf = .ok leaf.toTreeLeaf := by
    rw [lastLeafFrom.eq_def]
    exact if_pos hnull
  rw [hlast, ok_bind, leafExtents_append, leafExtents_cons, leafExtents_nil, List.append_nil,
    List.getLast?_append_of_ne_nil _ hne]
  rfl

/-- A look-up in a well-formed tree finds the extent that holds the file block. -/
theorem StoredTree.findExtent_eq {leaves : List StoredLeaf} (hs : m.device.Sized)
    (h : m.StoredTree inode leaves) (logical : Nat) :
    (∀ e ∈ leafExtents leaves, e.Holds logical → m.findExtent inode logical = .ok e) ∧
      ((∀ e ∈ leafExtents leaves, ¬ e.Holds logical) →
        m.findExtent inode logical = .error (.extentNotFound logical)) := by
  obtain ⟨pre, leaf, post, rfl, hreached, hentry⟩ := entryLeaf_eq hs (choice_childIndex logical) h
  have hlen := h.length_le
  have ho := h.inOrder
  rw [leafExtents_append] at ho
  rw [List.length_append, List.length_cons] at hlen
  have hfind : m.findExtent inode logical =
      m.findFrom inode logical (m.maxLinks inode) none leaf.toTreeLeaf := by
    rw [findExtent, h.format]
    simp only [hentry, ok_bind]
  have hrun := findFrom_eq hs inode logical (m.maxLinks inode)
    h.linked.suffix
    (fun l hl => h.leafAt l (List.mem_append_right _ (List.mem_cons_of_mem _ hl))) ho.right
    (startsAfter_none _) (by omega)
  have hpre : ∀ e ∈ leafExtents pre, ¬ e.Holds logical := by
    intro e he hh
    rcases hreached with rfl | ⟨start, hstart, hle⟩
    · cases he
    · obtain ⟨x, hx, rfl⟩ := Option.map_eq_some_iff.mp hstart
      have hxin : x ∈ leafExtents (leaf :: post) :=
        List.mem_append_left _ (List.mem_of_mem_head? hx)
      have := (List.pairwise_append.mp ho.disjoint).2.2 e he x hxin
      have := hh.2
      omega
  rw [leafExtents_append, hfind]
  refine ⟨?_, ?_⟩
  · intro e he hh
    rcases List.mem_append.mp he with he | he
    · exact absurd hh (hpre e he)
    · exact hrun.1 e he hh
  · intro hn
    exact hrun.2 fun e he => hn e (List.mem_append_right _ he)

/-! ## Any fork -/

/-- The extents that a mapped fork holds. -/
inductive ForkHolds (m : Medium) (inode : Inode) : List Extent → Prop
  /-- A list in the inode that the walk over all extents accepts. -/
  | inline {extents accepted : List Extent} (format : inode.format = .extents)
      (stored : Extent.ofFork inode.fork inode.extents.toNat = .ok extents)
      (walk : m.allExtents inode = .ok accepted) : ForkHolds m inode extents
  /-- A well-formed tree. -/
  | tree {leaves : List StoredLeaf} (stored : m.StoredTree inode leaves) :
      ForkHolds m inode (leafExtents leaves)

theorem Extent.fits_of_ofFork {fork : ByteArray} {count : Nat} {extents : List Extent}
    (h : Extent.ofFork fork count = .ok extents) : ∀ e ∈ extents, e.Fits := by
  rw [Extent.ofFork, ite_error_eq_ok] at h
  exact (Extent.decodeList_spec h.2).2

theorem inline_accepted {extents accepted : List Extent} (hf : inode.format = .extents)
    (hst : Extent.ofFork inode.fork inode.extents.toNat = .ok extents)
    (hw : m.allExtents inode = .ok accepted) :
    inode.inlineExtents = .ok extents ∧ accepted = extents ∧ InOrder extents := by
  have hfits := Extent.fits_of_ofFork hst
  have hroom : inode.checkInlineExtents = .ok () := by
    rw [Extent.ofFork, ite_error_eq_ok] at hst
    exact if_neg hst.1
  have hinline : inode.inlineExtents = .ok extents := by
    rw [Inode.inlineExtents, hroom, ok_bind, hst, mapError_ok]
  rw [allExtents, hf] at hw
  simp only [hinline, ok_bind, bind_eq_ok, pure_eq_ok] at hw
  obtain ⟨last, hcheck, heq⟩ := hw
  cases heq
  exact ⟨hinline, rfl, (inOrder_of_checkExtents hfits hcheck).1⟩

theorem ForkHolds.isMapped {extents : List Extent} (h : m.ForkHolds inode extents) :
    inode.format = .extents ∨ inode.format = .btree := by
  cases h with
  | inline hf _ _ => exact Or.inl hf
  | tree h => exact Or.inr h.format

theorem ForkHolds.inOrder {extents : List Extent} (h : m.ForkHolds inode extents) :
    InOrder extents := by
  cases h with
  | inline hf hst hw => exact (inline_accepted hf hst hw).2.2
  | tree h => exact h.inOrder

theorem ForkHolds.allExtents_eq {extents : List Extent} (hs : m.device.Sized)
    (h : m.ForkHolds inode extents) : m.allExtents inode = .ok extents := by
  cases h with
  | inline hf hst hw =>
    obtain ⟨-, rfl, -⟩ := inline_accepted hf hst hw
    exact hw
  | tree h => exact h.allExtents_eq hs

theorem ForkHolds.lastExtent?_eq {extents : List Extent} (hs : m.device.Sized)
    (h : m.ForkHolds inode extents) : m.lastExtent? inode = .ok extents.getLast? := by
  cases h with
  | inline hf hst hw =>
    rw [lastExtent?, hf]
    simp only [(inline_accepted hf hst hw).1, ok_bind]
    rfl
  | tree h => exact h.lastExtent?_eq hs

/-- A look-up finds the extent that holds the file block, and reports a missing one where none
does. -/
theorem ForkHolds.findExtent_eq {extents : List Extent} (hs : m.device.Sized)
    (h : m.ForkHolds inode extents) (logical : Nat) :
    (∀ e ∈ extents, e.Holds logical → m.findExtent inode logical = .ok e) ∧
      ((∀ e ∈ extents, ¬ e.Holds logical) →
        m.findExtent inode logical = .error (.extentNotFound logical)) := by
  cases h with
  | inline hf hst hw =>
    obtain ⟨hinline, -, ho⟩ := inline_accepted hf hst hw
    rw [findExtent, hf]
    simp only [hinline, ok_bind]
    refine ⟨?_, ?_⟩
    · intro e he hh
      rw [scanExtents_of_holds 0 ho (startsAfter_none _) he hh]
      rfl
    · intro hn
      rcases scanExtents_of_not_holds 0 ho (startsAfter_none _) hn with ⟨hscan, -⟩ | hscan
      · rw [hscan]
        rfl
      · rw [hscan]
        rfl
  | tree h => exact h.findExtent_eq hs logical

/-- **The walks agree with the extents of the fork.** All extents are collected in file order, the
last one is found, and a look-up finds the one extent that holds a file block, or reports that there
is none. -/
theorem walks_agree {extents : List Extent} (hs : m.device.Sized)
    (h : m.ForkHolds inode extents) :
    m.allExtents inode = .ok extents ∧ m.lastExtent? inode = .ok extents.getLast? ∧
      ∀ logical,
        (∀ e ∈ extents, e.Holds logical → m.findExtent inode logical = .ok e ∧
          ∀ e' ∈ extents, e'.Holds logical → e' = e) ∧
        ((∀ e ∈ extents, ¬ e.Holds logical) →
          m.findExtent inode logical = .error (.extentNotFound logical)) := by
  refine ⟨h.allExtents_eq hs, h.lastExtent?_eq hs, fun logical => ⟨?_, ?_⟩⟩
  · intro e he hh
    exact ⟨(h.findExtent_eq hs logical).1 e he hh,
      fun e' he' hh' => h.inOrder.eq_of_holds he' he hh' hh⟩
  · exact (h.findExtent_eq hs logical).2

/-! ### A tree of two leaves -/

def smallLeaf (left right : Nat) (e : Extent) : ByteArray :=
  blockOf 40 [⟨0, 4, treeMagic.toNat⟩, ⟨6, 2, 1⟩, ⟨8, 8, left⟩, ⟨16, 8, right⟩,
    ⟨24, 8, e.toWords.1.toNat⟩, ⟨32, 8, e.toWords.2.toNat⟩]

/-- Two leaves side by side, on a volume of two blocks. -/
def twoLeaves : Medium where
  device := ⟨smallLeaf nullAddress 1 ⟨1, 0, 2, false⟩ ++ smallLeaf 0 nullAddress ⟨5, 1, 3, true⟩, 40⟩
  geometry := {
    blockSize := 40, blockLog := 0, dataBlocks := 2, agBlocks := 2, agBlockLog := 1, agCount := 1
    inodeSize := 0, inodeLog := 0, inodesPerBlockLog := 0, dirBlockLog := 0, dirBlockSize := 0
    rootIno := 0, isV5 := false, hasFtype := false }

def twoLeavesInode : Inode where
  ino := 0
  mode := 0
  version := 2
  format := .btree
  uid := 0
  gid := 0
  nlink := 1
  atime := ⟨0, 0⟩
  mtime := ⟨0, 0⟩
  ctime := ⟨0, 0⟩
  crtime := none
  size := 0
  blocks := 0
  extentSize := 0
  extents := 2
  attrExtents := 0
  forkOffset := 0
  attrFormat := 0
  flags := 0
  flags2 := 0
  generation := 0
  fork := blockOf 36 [⟨0, 2, 1⟩, ⟨2, 2, 2⟩, ⟨4, 8, 1⟩, ⟨12, 8, 5⟩, ⟨20, 8, 0⟩, ⟨28, 8, 1⟩]

theorem twoLeaves_stored : twoLeaves.StoredTree twoLeavesInode
    [⟨⟨0, 0, [⟨1, 0, 2, false⟩], 1⟩, nullAddress⟩, ⟨⟨1, 1, [⟨5, 1, 3, true⟩], nullAddress⟩, 0⟩] where
  format := rfl
  root := by
    refine ⟨⟨1, [⟨1, 0⟩, ⟨5, 1⟩]⟩, [[_], [_]], by decide +kernel, by decide, ?_, rfl⟩
    refine List.Forall₂.cons ⟨?_, _, rfl, rfl⟩ (List.Forall₂.cons ⟨?_, _, rfl, rfl⟩ .nil)
    · exact ⟨0, ⟨0, nullAddress, 1, false, .leaf [⟨1, 0, 2, false⟩]⟩, _,
        ⟨by decide, by decide, by decide, by decide +kernel, rfl, rfl⟩, rfl, rfl⟩
    · exact ⟨1, ⟨0, 0, nullAddress, false, .leaf [⟨5, 1, 3, true⟩]⟩, _,
        ⟨by decide, by decide, by decide, by decide +kernel, rfl, rfl⟩, rfl, rfl⟩
  distinct := by decide
  linked := ⟨rfl, rfl, rfl⟩
  inOrder := by
    refine ⟨?_, by decide, by decide⟩
    intro e he
    simp only [leafExtents_cons, leafExtents_nil, List.append_nil, List.cons_append,
      List.nil_append, List.mem_cons, List.not_mem_nil, or_false] at he
    rcases he with rfl | rfl
    · exact ⟨by decide, by decide, by decide⟩
    · exact ⟨by decide, by decide, by decide⟩
  counted := rfl

/-- File blocks 6 and 4 of the tree of two leaves: one lies in the second leaf's extent, the other
between the two extents. -/
theorem walks_agree_twoLeaves :
    twoLeaves.device.Sized ∧
      twoLeaves.ForkHolds twoLeavesInode [⟨1, 0, 2, false⟩, ⟨5, 1, 3, true⟩] ∧
      twoLeaves.findExtent twoLeavesInode 6 = .ok ⟨5, 1, 3, true⟩ ∧
      twoLeaves.findExtent twoLeavesInode 4 = .error (.extentNotFound 4) := by
  have hs : twoLeaves.device.Sized := by decide +kernel
  have hf : twoLeaves.ForkHolds twoLeavesInode [⟨1, 0, 2, false⟩, ⟨5, 1, 3, true⟩] :=
    .tree twoLeaves_stored
  obtain ⟨-, -, hfind⟩ := walks_agree hs hf
  refine ⟨hs, hf, ?_, ?_⟩
  · exact ((hfind 6).1 ⟨5, 1, 3, true⟩ (by decide) (by decide)).1
  · exact (hfind 4).2 (by decide)

end Medium

end XfsVolume
