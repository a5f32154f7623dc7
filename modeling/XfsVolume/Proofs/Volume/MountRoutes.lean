import XfsVolume.Proofs.Volume.Runs

/-!
# Ways to mount an image

An image is mounted from its bytes, after a look at its first sector, or as a device of blocks, whose
first block is read whole. The two look at a different number of bytes and check the block size at
different times, so that they refuse an image for different reasons. But the fields of the superblock
stand in the first sector, and the geometry has the block size of the superblock: so they mount the
same images, and mount them as the same volume (`mountBytes_eq_ok`).
-/

namespace XfsVolume

namespace Volume

/-- **The ways to mount agree.** An image is mounted from its bytes exactly when it is mounted as a
device of blocks of the supported size, and it is the same volume, with the same superblock and the
same geometry. What is mounted after its checks is mounted without them as well, as the same volume,
whichever way is taken and whatever the size of the device's blocks. -/
theorem mount_routes_agree (image : ByteArray) (options : MountOptions) (v : Volume) :
    (mountBytes image options = .ok v ↔
      ∃ dev, Device.ofBytes image supportedBlockSize = .ok dev ∧ mount dev options = .ok v) ∧
    (mountBytes image { options with skipValidation := false } = .ok v →
      mountBytes image { options with skipValidation := true } = .ok v) ∧
    ∀ dev : Device, dev.bytes = image →
      mount dev { options with skipValidation := false } = .ok v →
        mount dev { options with skipValidation := true } = .ok v := by
  refine ⟨mountBytes_eq_ok, fun h => ?_, fun dev _ h => ?_⟩
  · have hunchecked := mountBytes_unchecked h
    exact hunchecked
  · have hunchecked := mount_unchecked h
    exact hunchecked

/-- The volume of two short groups, which passes its checks, mounted each way. -/
theorem mount_routes_shortGroups : ∃ v,
    mount shortGroupsDevice {} = .ok v ∧ mountBytes shortGroupsDevice.bytes {} = .ok v ∧
      mountBytes shortGroupsDevice.bytes { skipValidation := true } = .ok v ∧
      mount shortGroupsDevice { skipValidation := true } = .ok v := by
  obtain ⟨v, hmount, -⟩ := mount_shortGroupsDevice
  have hdev : Device.ofBytes shortGroupsDevice.bytes supportedBlockSize = .ok shortGroupsDevice := by
    refine Device.ofBytes_eq_ok.mpr ⟨by decide, ?_, rfl⟩
    rw [size_shortGroupsDevice]
    decide
  obtain ⟨hroutes, hbytes, hblocks⟩ := mount_routes_agree shortGroupsDevice.bytes {} v
  have hmounted := hroutes.mpr ⟨_, hdev, hmount⟩
  exact ⟨v, hmount, hmounted, hbytes hmounted, hblocks shortGroupsDevice rfl hmount⟩

end Volume

end XfsVolume
