import XfsVolume.Proofs.Extent.MapFaults
import XfsVolume.Volume.Symlink

/-!
# Faults of reading through the block map

Directory blocks and the targets of symlinks are read through the block map, and what they may fail
with beyond its faults is little. As for the map there is one lemma for each reader, about every
class of faults that holds what the reader adds; so each guarantee about faults chooses a class and
shows only what this class holds.
-/

namespace XfsVolume

variable {P : Fault → Prop}

namespace Medium

variable {m : Medium} {dir : Inode} {fb : Nat}

/-! ## Directories -/

/-- A hole is told as damage to the directory, and every other fault as it is. -/
theorem failsIn_dirMapFault {α : Type} {x : Except Fault α} (hx : FailsIn P x)
    (hunmapped : P (dirFault fb (.unmapped dir.ino.toNat))) :
    FailsIn P (x.mapError (dirMapFault dir fb)) := by
  refine failsIn_mapError fun e he => ?_
  cases e with
  | extentNotFound _ => exact hunmapped
  | _ => exact hx _ he

/-- The blocks of a directory block are mapped and read one by one. -/
theorem MapFaults.dirBlockPieces (h : m.MapFaults P)
    (hlist : dir.format = .extents → FailsIn P dir.inlineExtents)
    (hunmapped : P (dirFault fb (.unmapped dir.ino.toNat)))
    (hread : ∀ logical mapping, m.mapBlock dir logical = .ok mapping →
      FailsIn P (m.readBlock mapping.physical)) :
    ∀ count k : Nat, FailsIn P (m.dirBlockPieces dir fb count k)
  | 0, _ => failsIn_ok _
  | count + 1, k => by
      rw [Medium.dirBlockPieces]
      refine failsIn_bind (failsIn_dirMapFault (h.mapBlock hlist _) hunmapped) fun mapping hmap => ?_
      refine failsIn_bind (hread _ _ (mapError_eq_ok.mp hmap)) fun piece _ => ?_
      exact failsIn_bind (h.dirBlockPieces hlist hunmapped hread count (k + 1))
        fun _ _ => failsIn_ok _

theorem failsIn_inlineListing (m : Medium)
    (hlong : dir.fork.size < dir.size.toNat →
      P (inlineDirFault dir (.tooLong dir.size.toNat)))
    (hheader : ∀ e, P (inlineDirFault dir (.header e)))
    (hentry : ∀ off e, P (inlineDirFault dir (.entry off e))) : FailsIn P (m.inlineListing dir) := by
  rw [inlineListing]
  refine failsIn_bind ?_ fun _ _ => failsIn_ok _
  rw [inlineEntries]
  refine failsIn_ite (fun hpast => failsIn_error (hlong hpast)) fun _ => ?_
  refine failsIn_bind (failsIn_mapError fun e _ => hheader e) fun header _ => ?_
  dsimp only
  split
  · exact failsIn_error (hentry _ _)
  · exact failsIn_ok _

end Medium

namespace Volume

variable {v : Volume} {inode : Inode}

/-! ## Targets of symlinks -/

theorem failsIn_readTargetPieces (h : v.MapFaults P)
    (hlist : inode.format = .extents → FailsIn P inode.inlineExtents)
    (hread : ∀ logical mapping, v.mapBlock inode logical = .ok mapping →
      FailsIn P (v.readBlock mapping.physical))
    (hflaw : ∀ flaw, flaw ≠ .inlineDataShort → flaw ≠ .inlineTargetShort →
      P (.corruptInode inode.ino.toNat flaw)) :
    ∀ remaining logical offset : Nat,
      FailsIn P (v.readTargetPieces inode logical offset remaining) := by
  intro remaining
  induction remaining using Nat.strongRecOn with
  | ind remaining ih =>
    intro logical offset
    rw [readTargetPieces]
    by_cases hnone : remaining = 0
    · rw [dif_pos hnone]
      exact failsIn_ok _
    · rw [dif_neg hnone]
      have hmap := h.mapBlock hlist logical
      refine failsIn_bind (failsIn_mapError fun e he => ?_) fun mapping hmapping => ?_
      · cases e with
        | extentNotFound _ => exact hflaw _ nofun nofun
        | _ => exact hmap _ he
      refine failsIn_bind (hread _ _ (mapError_eq_ok.mp hmapping)) fun block _ => ?_
      dsimp only
      by_cases hempty : min remaining (block.size - v.linkHeader) = 0
      · rw [dif_pos hempty]
        exact failsIn_error (hflaw _ nofun nofun)
      · rw [dif_neg hempty]
        have hrest := ih (remaining - min remaining (block.size - v.linkHeader)) (by omega)
        refine failsIn_ite (fun _ => ?_) fun _ => failsIn_bind (hrest _ _) fun _ _ => failsIn_ok _
        refine failsIn_bind (failsIn_mapError fun _ _ => hflaw _ nofun nofun) fun _ _ => ?_
        exact failsIn_bind (hrest _ _) fun _ _ => failsIn_ok _

theorem failsIn_readTarget (h : v.MapFaults P)
    (hlist : inode.format = .extents → FailsIn P inode.inlineExtents)
    (hread : ∀ logical mapping, v.mapBlock inode logical = .ok mapping →
      FailsIn P (v.readBlock mapping.physical))
    (hkind : P .notSymlink)
    (hflaw : ∀ flaw, flaw ≠ .inlineDataShort → flaw ≠ .inlineTargetShort →
      P (.corruptInode inode.ino.toNat flaw))
    (hshort : inode.format = .inline → inode.fork.size < inode.size.toNat →
      P (.corruptInode inode.ino.toNat .inlineTargetShort)) : FailsIn P (v.readTarget inode) := by
  rw [readTarget]
  refine failsIn_guard hkind fun _ => failsIn_guard (hflaw _ nofun nofun) fun _ => ?_
  cases hformat : inode.format with
  | inline =>
    exact failsIn_ite (fun hpast => failsIn_error (hshort hformat hpast)) fun _ => failsIn_ok _
  | extents | btree =>
    exact failsIn_bind (failsIn_readTargetPieces h hlist hread hflaw _ _ _) fun _ _ => failsIn_ok _
  | dev | uuid => exact failsIn_error (hflaw _ nofun nofun)

end Volume

end XfsVolume
