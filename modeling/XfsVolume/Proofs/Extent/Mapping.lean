import XfsVolume.Proofs.Digits
import XfsVolume.Proofs.Extent.Walks

/-!
# Extents in an allocation group

An extent that lies wholly in one allocation group, inside the volume and the device, maps its file
blocks to device blocks that stand side by side (`Placed`). In a fork whose extents all lie so, the
block map gives a device block for every file block that an extent holds, and reports a missing
extent for every other one.
-/

namespace XfsVolume

namespace Geometry

/-- Device block of block `agBlock` of allocation group `ag`. -/
def groupBlock (geo : Geometry) (ag agBlock : Nat) : Nat := ag * geo.agBlocks.toNat + agBlock

theorem groupBlock_zero (geo : Geometry) (agBlock : Nat) : geo.groupBlock 0 agBlock = agBlock := by
  rw [groupBlock, Nat.zero_mul, Nat.zero_add]

/-- An address made from a group and a block of it names that block. -/
theorem deviceBlock_eq {geo : Geometry} {ag agBlock : Nat} (hag : ag < geo.agCount.toNat)
    (haddress : agBlock < 1 <<< geo.agBlockLog.toNat) (hblock : agBlock < geo.agBlocks.toNat) :
    geo.deviceBlock (ag <<< geo.agBlockLog.toNat + agBlock) = .ok (geo.groupBlock ag agBlock) := by
  rw [Nat.one_shiftLeft] at haddress
  obtain ⟨hdiv, hmod⟩ := shift_digits_eq ag haddress
  rw [deviceBlock]
  simp only [hdiv, hmod]
  rw [if_neg (by omega), if_neg (by omega)]
  rfl

end Geometry

namespace Medium

variable {m : Medium} {inode : Inode} {extents : List Extent}

/-- The blocks of `e` are those of allocation group `ag` from its block `agBlock` on; they lie inside
the group, the volume and the device. -/
structure Placed (m : Medium) (e : Extent) (ag agBlock : Nat) : Prop where
  address : e.address = ag <<< m.geometry.agBlockLog.toNat + agBlock
  group : ag < m.geometry.agCount.toNat
  addressable : agBlock + e.count ≤ 1 <<< m.geometry.agBlockLog.toNat
  inGroup : agBlock + e.count ≤ m.geometry.agBlocks.toNat
  inVolume : m.geometry.groupBlock ag agBlock + e.count ≤ m.geometry.dataBlocks.toNat
  inDevice : m.geometry.groupBlock ag agBlock + e.count ≤ m.device.blockCount

/-- A file block of such an extent lies as far into its device blocks as into the extent. -/
theorem Placed.mappingIn_eq {e : Extent} {ag agBlock logical : Nat} (h : m.Placed e ag agBlock)
    (hfit : e.Fits) (hh : e.Holds logical) :
    m.mappingIn e logical = .ok {
      logical
      physical := m.geometry.groupBlock ag agBlock + (logical - e.start)
      unwritten := e.unwritten } := by
  have hin : logical - e.start < e.count := by
    have := hh.1
    have := hh.2
    omega
  have haddress : e.addressOf? logical = some (e.address + (logical - e.start)) := by
    rw [Extent.addressOf?, if_pos ((hfit.covers_iff logical).mpr hh)]
  have hplaced : m.geometry.deviceBlock (e.address + (logical - e.start)) =
      .ok (m.geometry.groupBlock ag agBlock + (logical - e.start)) := by
    have hfar := h.addressable
    have hgroup := h.inGroup
    rw [h.address, Nat.add_assoc, Geometry.deviceBlock_eq h.group (by omega) (by omega)]
    rw [Geometry.groupBlock, Geometry.groupBlock, Nat.add_assoc]
  have hvolume := h.inVolume
  rw [mappingIn, haddress]
  simp only [hplaced, mapError_ok, ok_bind]
  rw [if_neg (by omega)]
  rfl

/-- A file block that an extent holds is mapped into it. -/
theorem ForkHolds.mapBlock_eq (hs : m.device.Sized) (hf : m.ForkHolds inode extents) {e : Extent}
    (he : e ∈ extents) {ag agBlock logical : Nat} (hp : m.Placed e ag agBlock)
    (hh : e.Holds logical) :
    m.mapBlock inode logical = .ok {
      logical
      physical := m.geometry.groupBlock ag agBlock + (logical - e.start)
      unwritten := e.unwritten } := by
  rw [mapBlock, (hf.findExtent_eq hs logical).1 e he hh, ok_bind]
  exact hp.mappingIn_eq (hf.inOrder.fits e he) hh

theorem ForkHolds.mapBlock_hole (hs : m.device.Sized) (hf : m.ForkHolds inode extents)
    {logical : Nat} (hn : ∀ e ∈ extents, ¬ e.Holds logical) :
    m.mapBlock inode logical = .error (.extentNotFound logical) := by
  rw [mapBlock, (hf.findExtent_eq hs logical).2 hn]
  rfl

end Medium

end XfsVolume
