import XfsVolume.Extent.Cursor
import XfsVolume.Proofs.Extent.StoredTree

/-!
# Chains of leaves

Every walk over an extent tree follows the links of its leaves to the right (`LeafChain`), from the
leaf it entered to one that has no next. Over a chain whose extents are in order, a search finds the
extent that holds a file block, and the walk over all extents gives them leaf by leaf; and this walk
succeeds over no other chain. Nothing is asked of the nodes above the leaves.
-/

namespace XfsVolume

def chainExtents (leaves : List TreeLeaf) : List Extent := leaves.flatMap (·.extents)

@[simp] theorem chainExtents_nil : chainExtents [] = [] := rfl

@[simp] theorem chainExtents_cons (leaf : TreeLeaf) (leaves : List TreeLeaf) :
    chainExtents (leaf :: leaves) = leaf.extents ++ chainExtents leaves := rfl

@[simp] theorem chainExtents_append (xs ys : List TreeLeaf) :
    chainExtents (xs ++ ys) = chainExtents xs ++ chainExtents ys := List.flatMap_append

/-- Lists that are in order, of which the second starts after the first, are in order together. -/
theorem InOrder.append : ∀ {es fs : List Extent} {prevEnd : Option Nat}, InOrder es →
    StartsAfter prevEnd es → InOrder fs → StartsAfter (endAfter prevEnd es) fs →
    InOrder (es ++ fs) ∧ StartsAfter prevEnd (es ++ fs)
  | [], _, _, _, _, hf, hsf => ⟨hf, hsf⟩
  | e :: es, fs, prevEnd, he, hse, hf, hsf => by
      rw [endAfter_cons] at hsf
      obtain ⟨hrest, hafter⟩ := append he.tail he.startsAfter_head hf hsf
      have hfits := he.head.1
      have hbehind : ∀ x ∈ es ++ fs, e.start + e.count ≤ x.start := by
        intro x hx
        rw [← hfits.stop_eq]
        exact hafter _ rfl x hx
      refine ⟨⟨?_, ?_, List.pairwise_cons.mpr ⟨hbehind, hrest.disjoint⟩⟩, ?_⟩
      · exact List.forall_mem_cons.mpr ⟨hfits, hrest.fits⟩
      · exact List.forall_mem_cons.mpr ⟨he.head.2, hrest.nonempty⟩
      · intro p hp x hx
        have hstart := hse p hp e List.mem_cons_self
        rcases List.mem_cons.mp hx with rfl | hx
        · exact hstart
        · have := hbehind x hx
          omega

theorem endAfter_of_checkExtents {block : Nat} : ∀ {es : List Extent} {prevEnd last : Option Nat},
    checkExtents block prevEnd es = .ok last → last = endAfter prevEnd es
  | [], _, _, h => (Except.ok.inj h).symm
  | e :: es, prevEnd, last, h => by
      rw [checkExtents, bind_eq_ok] at h
      obtain ⟨-, -, h⟩ := h
      rw [endAfter_cons]
      exact endAfter_of_checkExtents h

namespace Medium

variable {m : Medium} {inode : Inode}

/-- Leaves each of which has the next to its right, and the last of which has none. -/
inductive LeafChain (m : Medium) : List TreeLeaf → Prop
  | last {leaf : TreeLeaf} (ends : leaf.right = nullAddress) : LeafChain m [leaf]
  | link {leaf next : TreeLeaf} {rest : List TreeLeaf} (goes : leaf.right ≠ nullAddress)
      (right : m.rightLeaf leaf = .ok next) (after : LeafChain m (next :: rest)) :
      LeafChain m (leaf :: next :: rest)

theorem LeafChain.suffix : ∀ {before rest : List TreeLeaf}, rest ≠ [] →
    m.LeafChain (before ++ rest) → m.LeafChain rest
  | [], _, _, h => h
  | [leaf], _, hne, h => by
      cases h with
      | last => exact absurd rfl hne
      | link _ _ after => exact after
  | leaf :: next :: before, rest, hne, h => by
      cases h with
      | link _ _ after =>
        exact LeafChain.suffix hne (show m.LeafChain ((next :: before) ++ rest) from after)

theorem decoded_of_readTreeNode {address level block : Nat} {node : TreeNode}
    (h : m.readTreeNode address level = .ok (block, node)) :
    node.level = level ∧ ∃ bytes, TreeNode.decode bytes = .ok node := by
  simp only [readTreeNode, bind_eq_ok, mapError_eq_ok, throw_bind, ite_error_eq_ok, pure_eq_ok]
    at h
  obtain ⟨found, -, -, bytes, -, decoded, hdecoded, -, hlevel, heq⟩ := h
  cases heq
  exact ⟨not_not.mp hlevel, bytes, hdecoded⟩

theorem fits_of_readTreeNode {address level block : Nat} {node : TreeNode}
    {extents : List Extent} (h : m.readTreeNode address level = .ok (block, node))
    (hbody : node.body = .leaf extents) : ∀ e ∈ extents, e.Fits := by
  obtain ⟨-, bytes, hdecoded⟩ := decoded_of_readTreeNode h
  exact ((TreeNode.body_of_decode hdecoded).1 extents hbody).2

theorem node_of_rightLeaf {leaf next : TreeLeaf} (h : m.rightLeaf leaf = .ok next) :
    ∃ node, m.readTreeNode leaf.right 0 = .ok (next.block, node) ∧
      node.body = .leaf next.extents := by
  rw [rightLeaf, bind_eq_ok] at h
  obtain ⟨⟨block, node⟩, hread, h⟩ := h
  simp only [throw_bind, ite_error_eq_ok] at h
  obtain ⟨-, h⟩ := h
  cases hbody : node.body with
  | interior links =>
    rw [hbody] at h
    cases h
  | leaf extents =>
    rw [hbody] at h
    cases h
    exact ⟨node, hread, hbody⟩

theorem fits_of_rightLeaf {leaf next : TreeLeaf} (h : m.rightLeaf leaf = .ok next) :
    ∀ e ∈ next.extents, e.Fits := by
  obtain ⟨node, hread, hbody⟩ := node_of_rightLeaf h
  exact fits_of_readTreeNode hread hbody

theorem extents_ne_nil_of_rightLeaf {leaf next : TreeLeaf} (h : m.rightLeaf leaf = .ok next) :
    next.extents ≠ [] := by
  obtain ⟨node, hread, hbody⟩ := node_of_rightLeaf h
  obtain ⟨-, bytes, hdecoded⟩ := decoded_of_readTreeNode hread
  exact ((TreeNode.body_of_decode hdecoded).1 _ hbody).1

theorem fits_of_descendTree {pick : List Nat → Nat} : ∀ {level address : Nat} {leaf : TreeLeaf},
    m.descendTree pick level address = .ok leaf → ∀ e ∈ leaf.extents, e.Fits
  | level, address, leaf, h => by
      rw [descendTree.eq_def, bind_eq_ok] at h
      obtain ⟨⟨block, node⟩, hread, h⟩ := h
      dsimp only at h
      cases hbody : node.body with
      | leaf extents =>
        rw [hbody] at h
        cases h
        exact fits_of_readTreeNode hread hbody
      | interior links =>
        rw [hbody] at h
        cases level with
        | zero => cases h
        | succ level =>
          dsimp only at h
          split at h
          · exact fits_of_descendTree h
          · cases h

theorem fits_of_entryLeaf {pick : List Nat → Nat} {leaf : TreeLeaf}
    (h : m.entryLeaf inode pick = .ok leaf) : ∀ e ∈ leaf.extents, e.Fits := by
  rw [entryLeaf, bind_eq_ok] at h
  obtain ⟨root, -, h⟩ := h
  split at h
  · exact fits_of_descendTree h
  · cases h

/-- A search along a chain finds the extent that holds the file block, and reports a missing block
where none does. -/
theorem LeafChain.findFrom_eq (inode : Inode) (logical : Nat) : ∀ {rest : List TreeLeaf}
    {leaf : TreeLeaf} (links : Nat) {prevEnd : Option Nat}, m.LeafChain (leaf :: rest) →
      InOrder (chainExtents (leaf :: rest)) → StartsAfter prevEnd (chainExtents (leaf :: rest)) →
      rest.length ≤ links →
      (∀ e ∈ chainExtents (leaf :: rest), e.Holds logical →
        m.findFrom inode logical links prevEnd leaf = .ok e) ∧
      ((∀ e ∈ chainExtents (leaf :: rest), ¬ e.Holds logical) →
        m.findFrom inode logical links prevEnd leaf = .error (.extentNotFound logical))
  | [], leaf, links, prevEnd, .last hnull, ho, hp, _ => by
      rw [chainExtents_cons, chainExtents_nil, List.append_nil] at ho hp ⊢
      rw [findFrom]
      refine ⟨?_, ?_⟩
      · intro e he hh
        rw [scanExtents_of_holds leaf.block ho hp he hh, ok_bind]
        rfl
      · intro hn
        rcases scanExtents_of_not_holds leaf.block ho hp hn with ⟨hscan, -⟩ | hscan
        · rw [hscan, ok_bind]
          rfl
        · rw [hscan, ok_bind]
          exact if_pos hnull
  | next :: rest, leaf, links, prevEnd, .link hgoes hright hafter, ho, hp, hlinks => by
      obtain ⟨k, rfl⟩ : ∃ k, links = k + 1 := ⟨links - 1, by rw [List.length_cons] at hlinks; omega⟩
      rw [chainExtents_cons] at ho hp
      have hp' : StartsAfter prevEnd leaf.extents :=
        fun p hpe x hx => hp p hpe x (List.mem_append_left _ hx)
      have hrec := findFrom_eq inode logical k hafter ho.right (ho.startsAfter_right hp)
        (by rw [List.length_cons] at hlinks; omega)
      have hgo : scanExtents leaf.block logical prevEnd leaf.extents =
          .ok (.ended (endAfter prevEnd leaf.extents)) →
          m.findFrom inode logical (k + 1) prevEnd leaf =
            m.findFrom inode logical k (endAfter prevEnd leaf.extents) next := by
        intro hscan
        rw [findFrom, hscan, ok_bind]
        simp only [if_neg hgoes, hright, ok_bind]
      refine ⟨?_, ?_⟩
      · intro e he hh
        rw [chainExtents_cons] at he
        by_cases hin : e ∈ leaf.extents
        · rw [findFrom, scanExtents_of_holds leaf.block ho.left hp' hin hh, ok_bind]
          rfl
        · have he' : e ∈ chainExtents (next :: rest) := (List.mem_append.mp he).resolve_left hin
          have hbefore := (List.pairwise_append.mp ho.disjoint).2.2
          have hstart := hh.1
          have hno : ∀ x ∈ leaf.extents, ¬ x.Holds logical := by
            intro x hx hxh
            have := hbefore x hx e he'
            have := hxh.2
            omega
          rcases scanExtents_of_not_holds leaf.block ho.left hp' hno with ⟨-, x, hx, hlt⟩ | hscan
          · have := hbefore x hx e he'
            omega
          · rw [hgo hscan]
            exact hrec.1 e he' hh
      · intro hn
        rw [chainExtents_cons] at hn
        rcases scanExtents_of_not_holds leaf.block ho.left hp'
          fun e he => hn e (List.mem_append_left _ he) with ⟨hscan, -⟩ | hscan
        · rw [findFrom, hscan, ok_bind]
          rfl
        · rw [hgo hscan]
          exact hrec.2 fun e he => hn e (List.mem_append_right _ he)

theorem LeafChain.extentsFrom_eq (inode : Inode) : ∀ {rest : List TreeLeaf} {leaf : TreeLeaf}
    (links : Nat) {prevEnd : Option Nat}, m.LeafChain (leaf :: rest) →
      InOrder (chainExtents (leaf :: rest)) → StartsAfter prevEnd (chainExtents (leaf :: rest)) →
      rest.length ≤ links →
      m.extentsFrom inode links prevEnd leaf = .ok (chainExtents (leaf :: rest))
  | [], leaf, links, prevEnd, .last hnull, ho, hp, _ => by
      rw [chainExtents_cons, chainExtents_nil, List.append_nil] at ho hp ⊢
      rw [extentsFrom, checkExtents_eq_ok leaf.block ho hp, ok_bind, if_pos hnull]
      rfl
  | next :: rest, leaf, links, prevEnd, .link hgoes hright hafter, ho, hp, hlinks => by
      obtain ⟨k, rfl⟩ : ∃ k, links = k + 1 := ⟨links - 1, by rw [List.length_cons] at hlinks; omega⟩
      rw [chainExtents_cons] at ho hp ⊢
      have hcheck := checkExtents_eq_ok leaf.block ho.left
        fun p hpe x hx => hp p hpe x (List.mem_append_left _ hx)
      have hrec := extentsFrom_eq inode k hafter ho.right (ho.startsAfter_right hp)
        (by rw [List.length_cons] at hlinks; omega)
      rw [extentsFrom, hcheck, ok_bind, if_neg hgoes]
      simp only [hright, ok_bind, hrec]
      rfl

/-- A walk over all extents that succeeds has followed a chain of leaves whose extents are in
order. -/
theorem chain_of_extentsFrom {inode : Inode} : ∀ {links : Nat} {prevEnd : Option Nat}
    {leaf : TreeLeaf} {extents : List Extent}, (∀ e ∈ leaf.extents, e.Fits) →
      m.extentsFrom inode links prevEnd leaf = .ok extents →
      ∃ rest, m.LeafChain (leaf :: rest) ∧ rest.length ≤ links ∧
        extents = chainExtents (leaf :: rest) ∧ InOrder extents ∧ StartsAfter prevEnd extents
  | links, prevEnd, leaf, extents, hfits, h => by
      rw [extentsFrom.eq_def, bind_eq_ok] at h
      obtain ⟨last, hcheck, h⟩ := h
      obtain ⟨hin, hstart⟩ := inOrder_of_checkExtents hfits hcheck
      have hlast := endAfter_of_checkExtents hcheck
      split at h
      · rename_i hnull
        cases h
        refine ⟨[], .last hnull, Nat.zero_le _, ?_, hin, hstart⟩
        rw [chainExtents_cons, chainExtents_nil, List.append_nil]
      · rename_i hgoes
        cases links with
        | zero => cases h
        | succ links =>
          simp only [bind_eq_ok, pure_eq_ok] at h
          obtain ⟨next, hright, after, hafter, heq⟩ := h
          cases heq
          obtain ⟨rest, hchain, hlen, rfl, hrest, hfollows⟩ :=
            chain_of_extentsFrom (fits_of_rightLeaf hright) hafter
          rw [hlast] at hfollows
          obtain ⟨hall, hallStart⟩ := hin.append hstart hrest hfollows
          refine ⟨next :: rest, .link hgoes hright hchain, ?_, rfl, hall, hallStart⟩
          rw [List.length_cons]
          omega

end Medium

end XfsVolume
