import XfsVolume.Proofs.Image.OnMedium
import XfsVolume.Proofs.Image.WrittenTree

/-!
# Extent trees read back

On a medium that keeps the volume, the nodes of a tree stand where they were written, and so the
leaves below a link are those that were put there (`Medium.Keeps.leavesBelow`).
-/

namespace XfsVolume

namespace Medium

variable {m : Medium} {b : Builder} {spare : Nat → Prop}

theorem Keeps.standsNode {address level : Nat} {node : TreeNode} (hk : m.Keeps spare b)
    (hb : b.Sound) (h : b.NodeAt address level node)
    (hkept : ∀ {i}, b.options.InBlocks address 1 i → ¬ spare i) :
    m.NodeAt address level (b.options.blockOffset address / imageBlockSize) node := by
  obtain ⟨ag, agBlock, hrun⟩ := h.placed
  have hsize := Builder.size_block hb hrun
  have hshows : m.Shows b.options address 1 (b.block address) := by
    refine hk.shows hrun Nat.one_pos (by omega) (fun hi => ⟨h.owned hi, hkept hi⟩) fun i hi => ?_
    rw [hsize] at hi
    exact (byteAt_window hi).symm
  obtain ⟨ag', agBlock', hrun', hnode⟩ := hk.nodeAt hshows h.decoded h.header h.atLevel
  rw [hrun'.blockOffset_eq Nat.one_pos, Nat.mul_div_cancel _ (by decide)]
  exact hnode

theorem childrenHold_of_parts {below : Nat → TreePart → Prop} {level : Nat}
    {links : List TreeLink} {parts : List TreePart} (h : PartsHold below links parts)
    (hbelow : ∀ part ∈ parts, ∀ {address}, below address part →
      m.LeavesBelow level address part.leaves) :
    ChildrenHold (m.LeavesBelow level) links (parts.map TreePart.leaves) := by
  induction h with
  | nil => exact .nil
  | @cons link part links parts hfirst _ ih =>
    obtain ⟨hpart, hkey⟩ := hfirst
    exact .cons ⟨hbelow part List.mem_cons_self hpart, hkey⟩
      (ih fun part hin => hbelow part (List.mem_cons_of_mem _ hin))

theorem flatten_leaves (parts : List TreePart) :
    (parts.map TreePart.leaves).flatten = TreePart.allLeaves parts :=
  List.flatMap_def.symm

theorem Keeps.leavesBelow (hk : m.Keeps spare b) (hb : b.Sound) :
    ∀ {level address : Nat} {part : TreePart}, b.TreeBelow level address part →
      (∀ a ∈ part.blocks, ∀ {i}, b.options.InBlocks a 1 i → ¬ spare i) →
      m.LeavesBelow level address part.leaves
  | 0, address, part, ⟨node, extents, hnode, hbody, hleaves, hblocks⟩, hkept => by
      have hin : address ∈ part.blocks := by
        rw [hblocks]
        exact List.mem_singleton_self address
      exact ⟨_, node, extents, hk.standsNode hb hnode (hkept address hin), hbody, hleaves⟩
  | level + 1, address, _, ⟨node, links, parts, hnode, hbody, hparts, rfl⟩, hkept => by
      refine ⟨_, node, links, _, hk.standsNode hb hnode (hkept address List.mem_cons_self), hbody,
        childrenHold_of_parts hparts fun part hin {_} hbelow => ?_, (flatten_leaves parts).symm⟩
      exact Keeps.leavesBelow hk hb hbelow fun a ha =>
        hkept a (List.mem_cons_of_mem _ (List.mem_flatMap_of_mem hin ha))

theorem Keeps.childrenHold {level : Nat} {links : List TreeLink} {parts : List TreePart}
    (hk : m.Keeps spare b) (hb : b.Sound) (h : PartsHold (b.TreeBelow level) links parts)
    (hkept : ∀ a ∈ TreePart.allBlocks parts, ∀ {i}, b.options.InBlocks a 1 i → ¬ spare i) :
    ChildrenHold (m.LeavesBelow level) links (parts.map TreePart.leaves) :=
  childrenHold_of_parts h fun _ hin {_} hbelow => hk.leavesBelow hb hbelow fun a ha =>
    hkept a (List.mem_flatMap_of_mem hin ha)

end Medium

end XfsVolume
