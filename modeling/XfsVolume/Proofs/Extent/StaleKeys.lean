import XfsVolume.Proofs.Extent.Walks

/-!
# Keys that disagree with the leaves

A look-up enters a tree by its keys and goes to the right only. When a key is too low, the look-up
enters the chain of leaves behind the leaf that holds the file block, and reports a missing block,
which reads as zeros, though the walk over all extents finds nothing wrong and lists the extent. A
look-up that reports a missing block is right exactly when no leaf that it skipped holds the block.
-/

namespace XfsVolume

namespace Medium

variable {m : Medium} {inode : Inode} {extents : List Extent}

/-- The extents that the walk over all extents lists are those of a chain of leaves from the first,
which are in order and no more leaves than a look-up may enter. -/
theorem chain_of_allExtents (hf : inode.format = .btree) (hall : m.allExtents inode = .ok extents) :
    ∃ first rest, m.entryLeaf inode (fun _ => 0) = .ok first ∧ m.LeafChain (first :: rest) ∧
      rest.length ≤ m.maxLinks inode ∧ extents = chainExtents (first :: rest) ∧
      InOrder extents := by
  rw [allExtents, hf] at hall
  simp only [bind_eq_ok] at hall
  obtain ⟨first, hfirst, hwalk⟩ := hall
  obtain ⟨rest, hchain, hlen, hextents, hin, -⟩ :=
    chain_of_extentsFrom (fits_of_entryLeaf hfirst) hwalk
  exact ⟨first, rest, hfirst, hchain, by omega, hextents, hin⟩

/-- Chains from one leaf are the same. -/
theorem LeafChain.unique : ∀ {rest rest' : List TreeLeaf} {leaf : TreeLeaf},
    m.LeafChain (leaf :: rest) → m.LeafChain (leaf :: rest') → rest = rest'
  | _, _, _, .last _, .last _ => rfl
  | _, _, _, .last hnull, .link hgoes _ _ => absurd hnull hgoes
  | _, _, _, .link hgoes _ _, .last hnull => absurd hnull hgoes
  | _, _, _, .link _ hright hafter, .link _ hright' hafter' => by
      rw [hright] at hright'
      cases hright'
      rw [hafter.unique hafter']

/-- **Silent holes.** In a tree whose extents are all listed, let a look-up for `logical` enter at a
leaf `entered` of the chain that starts with the first leaf, behind the leaves `before`. What it
reports as missing is missing from the extents listed if and only if none of the leaves it skipped
holds it. A look-up that keys lead to a leaf outside that chain is not spoken of. -/
theorem missing_iff_not_skipped (hf : inode.format = .btree)
    (hall : m.allExtents inode = .ok extents) {logical : Nat} {first entered : TreeLeaf}
    {before after : List TreeLeaf} (hfirst : m.entryLeaf inode (fun _ => 0) = .ok first)
    (hentered : m.entryLeaf inode (childIndex · logical) = .ok entered)
    (hhead : (before ++ entered :: after).head? = some first)
    (hchain : m.LeafChain (before ++ entered :: after)) :
    (m.findExtent inode logical = .error (.extentNotFound logical) →
        ∀ e ∈ extents, ¬ e.Holds logical) ↔
      ∀ leaf ∈ before, ∀ e ∈ leaf.extents, ¬ e.Holds logical := by
  obtain ⟨first', rest, hfirst', hwalked, hlen, rfl, hin⟩ := chain_of_allExtents hf hall
  rw [hfirst] at hfirst'
  cases hfirst'
  -- the walk over all extents went along the same chain, as one leaf heads one chain
  have hleaves : first :: rest = before ++ entered :: after := by
    obtain ⟨tail, htail⟩ := List.head?_eq_some_iff.mp hhead
    rw [htail] at hchain ⊢
    rw [hwalked.unique hchain]
  rw [hleaves] at hin ⊢
  rw [chainExtents_append] at hin ⊢
  have hafter : after.length ≤ m.maxLinks inode := by
    have hlength := congrArg List.length hleaves
    rw [List.length_cons, List.length_append, List.length_cons] at hlength
    omega
  have hfind : m.findExtent inode logical =
      m.findFrom inode logical (m.maxLinks inode) none entered := by
    rw [findExtent, hf]
    simp only [hentered, ok_bind]
  obtain ⟨hheld, hnone⟩ := (LeafChain.suffix (List.cons_ne_nil _ _) hchain).findFrom_eq inode logical
    (m.maxLinks inode) hin.right (startsAfter_none _) hafter
  rw [hfind]
  constructor
  · intro hmissing leaf hleaf e he hh
    have hskipped : e ∈ chainExtents before := List.mem_flatMap.mpr ⟨leaf, hleaf, he⟩
    have hbehind : ∀ x ∈ chainExtents (entered :: after), ¬ x.Holds logical := by
      intro x hx hxh
      have := (List.pairwise_append.mp hin.disjoint).2.2 e hskipped x hx
      have := hh.2
      have := hxh.1
      omega
    exact hmissing (hnone hbehind) e (List.mem_append_left _ hskipped) hh
  · intro hskipped hmissing e he hh
    rcases List.mem_append.mp he with he | he
    · obtain ⟨leaf, hleaf, he⟩ := List.mem_flatMap.mp he
      exact hskipped leaf hleaf e he hh
    · rw [hheld e he hh] at hmissing
      cases hmissing

/-! ### A key that is too low -/

/-- The inode of the two leaves, with the key of the second lowered from 5 to 2. -/
def staleInode : Inode := { twoLeavesInode with
  fork := blockOf 36 [⟨0, 2, 1⟩, ⟨2, 2, 2⟩, ⟨4, 8, 1⟩, ⟨12, 8, 2⟩, ⟨20, 8, 0⟩, ⟨28, 8, 1⟩] }

def leftLeaf : TreeLeaf := ⟨0, 0, [⟨1, 0, 2, false⟩], 1⟩

def farLeaf : TreeLeaf := ⟨1, 1, [⟨5, 1, 3, true⟩], nullAddress⟩

theorem staleInode_entries :
    twoLeaves.entryLeaf staleInode (fun _ => 0) = .ok leftLeaf ∧
      twoLeaves.entryLeaf staleInode (childIndex · 2) = .ok farLeaf ∧
      twoLeaves.LeafChain ([leftLeaf] ++ [farLeaf]) := by
  refine ⟨by decide +kernel, by decide +kernel, .link (by decide) ?_ (.last rfl)⟩
  decide +kernel

theorem staleInode_allExtents : twoLeaves.allExtents staleInode =
    .ok [⟨1, 0, 2, false⟩, ⟨5, 1, 3, true⟩] := by
  decide +kernel

/-- File block 2 is reported as missing, though the first extent listed holds it. -/
theorem missing_but_listed :
    staleInode.format = .btree ∧
      twoLeaves.allExtents staleInode = .ok [⟨1, 0, 2, false⟩, ⟨5, 1, 3, true⟩] ∧
      twoLeaves.findExtent staleInode 2 = .error (.extentNotFound 2) ∧
      ∃ e ∈ [(⟨1, 0, 2, false⟩ : Extent), ⟨5, 1, 3, true⟩], e.Holds 2 := by
  refine ⟨rfl, staleInode_allExtents, by decide +kernel, ⟨1, 0, 2, false⟩, ?_, ?_⟩
  · exact List.mem_cons_self
  · decide

/-- The same look-up by the general statement: it skipped the leaf that holds the block. -/
theorem skipped_staleInode :
    staleInode.format = .btree ∧
      twoLeaves.allExtents staleInode = .ok [⟨1, 0, 2, false⟩, ⟨5, 1, 3, true⟩] ∧
      twoLeaves.entryLeaf staleInode (fun _ => 0) = .ok leftLeaf ∧
      twoLeaves.entryLeaf staleInode (childIndex · 2) = .ok farLeaf ∧
      ([leftLeaf] ++ [farLeaf]).head? = some leftLeaf ∧
      twoLeaves.LeafChain ([leftLeaf] ++ [farLeaf]) ∧
      ¬ (twoLeaves.findExtent staleInode 2 = .error (.extentNotFound 2) →
        ∀ e ∈ [(⟨1, 0, 2, false⟩ : Extent), ⟨5, 1, 3, true⟩], ¬ e.Holds 2) := by
  obtain ⟨hfirst, hentered, hchain⟩ := staleInode_entries
  refine ⟨rfl, staleInode_allExtents, hfirst, hentered, rfl, hchain, ?_⟩
  rw [missing_iff_not_skipped rfl staleInode_allExtents hfirst hentered rfl hchain]
  intro hskipped
  exact hskipped leftLeaf List.mem_cons_self ⟨1, 0, 2, false⟩ List.mem_cons_self (by decide)

end Medium

end XfsVolume
