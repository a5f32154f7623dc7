import XfsVolume.Proofs.Device
import XfsVolume.Proofs.Superblock

/-!
# What mounting promises

A mounted volume has the device it was mounted from, the geometry of its superblock, and blocks of
the one supported size. Unless the superblock was taken as it stands, it passed its checks and the
volume ends inside the device. Mounting bytes is mounting the device of their blocks: the first
sector, which is looked at before, holds the whole superblock (`mountBytes_eq_ok`).
-/

namespace XfsVolume

namespace Volume

/-- `v` is the volume that mounting `dev` gives. -/
structure Mounted (v : Volume) (dev : Device) (options : MountOptions) : Prop where
  device : v.device = dev
  cacheSlots : v.cacheSlots = options.cacheSlots
  nonempty : 0 < dev.blockCount
  superblock : Superblock.read (dev.block 0) = .ok v.superblock
  geometry : v.superblock.geometry = .ok v.geometry
  supported : v.geometry.blockSize.toNat = supportedBlockSize
  blockSize : dev.blockSize = supportedBlockSize
  valid : options.skipValidation = false → v.superblock.validate = .ok ()
  inDevice : options.skipValidation = false → v.geometry.dataBlocks.toNat ≤ dev.blockCount

variable {dev : Device} {options : MountOptions} {v : Volume}

/-- What is read and checked while a device is mounted. -/
theorem parts_of_mount (h : mount dev options = .ok v) :
    v.device = dev ∧ v.cacheSlots = options.cacheSlots ∧ dev.blockCount ≠ 0 ∧
      (∃ block, dev.readBlock 0 = .ok block ∧ Superblock.read block = .ok v.superblock) ∧
      v.superblock.geometry = .ok v.geometry ∧
      v.geometry.blockSize.toNat = supportedBlockSize ∧ dev.blockSize = supportedBlockSize ∧
      (options.skipValidation = false → v.superblock.validate = .ok () ∧
        v.geometry.dataBlocks.toNat ≤ dev.blockCount) := by
  simp only [mount, bind_eq_ok, ite_error_eq_ok, throw_bind, pure_eq_ok, mapError_eq_ok] at h
  obtain ⟨hcount, block, hblock, sb, hsb, h⟩ := h
  cases hskip : options.skipValidation with
  | true =>
    simp only [hskip, Bool.not_true, Bool.false_eq_true, if_false, Bool.and_false, bind_eq_ok,
      ite_error_eq_ok, mapError_eq_ok] at h
    obtain ⟨geo, hgeo, hsize, hdev, heq⟩ := h
    cases heq
    have hsize := Decidable.not_not.mp hsize
    refine ⟨rfl, rfl, hcount, ⟨block, hblock, hsb⟩, hgeo, hsize, ?_, nofun⟩
    rw [Decidable.not_not.mp hdev, hsize]
  | false =>
    simp only [hskip, Bool.not_false, if_true, Bool.and_true, bind_eq_ok, ite_error_eq_ok,
      mapError_eq_ok, decide_eq_true_eq] at h
    obtain ⟨u, hvalid, geo, hgeo, hsize, hdev, hend, heq⟩ := h
    cases heq
    have hsize := Decidable.not_not.mp hsize
    refine ⟨rfl, rfl, hcount, ⟨block, hblock, hsb⟩, hgeo, hsize, ?_,
      fun _ => ⟨hvalid, Nat.not_lt.mp hend⟩⟩
    rw [Decidable.not_not.mp hdev, hsize]

theorem mounted_of_mount (hs : dev.Sized) (h : mount dev options = .ok v) :
    v.Mounted dev options := by
  obtain ⟨hdevice, hslots, hcount, ⟨block, hblock, hsb⟩, hgeo, hsize, hdev, hchecked⟩ :=
    parts_of_mount h
  have hpos := Nat.pos_of_ne_zero hcount
  rw [Device.readBlock, Device.readBlocks_eq hs Nat.one_pos (by omega)] at hblock
  cases hblock
  exact ⟨hdevice, hslots, hpos, hsb, hgeo, hsize, hdev, fun hv => (hchecked hv).1,
    fun hv => (hchecked hv).2⟩

theorem Mounted.mount_eq (hs : dev.Sized) (h : v.Mounted dev options) :
    mount dev options = .ok v := by
  have hnonempty := h.nonempty
  have hblock : dev.readBlock 0 = .ok (dev.block 0) :=
    Device.readBlocks_eq hs Nat.one_pos (by omega)
  have hdev : dev.blockSize = v.geometry.blockSize.toNat := by rw [h.blockSize, h.supported]
  have hv : v = { device := dev, geometry := v.geometry, superblock := v.superblock,
                  cacheSlots := options.cacheSlots } := by
    rw [← h.device, ← h.cacheSlots]
  rw [mount, if_neg (by omega), hblock]
  simp only [mapError_ok, ok_bind, h.superblock]
  cases hskip : options.skipValidation with
  | true =>
    simp only [Bool.not_true, Bool.false_eq_true, if_false, Bool.and_false, h.geometry,
      mapError_ok, ok_bind, h.supported, hdev, ne_eq, not_true_eq_false, pure_eq_ok]
    exact congrArg Except.ok hv.symm
  | false =>
    have hend : decide (v.geometry.dataBlocks.toNat > dev.blockCount) = false := by
      rw [decide_eq_false_iff_not]
      exact Nat.not_lt.mpr (h.inDevice hskip)
    simp only [Bool.not_false, if_true, h.valid hskip, h.geometry, hend, Bool.false_and,
      Bool.false_eq_true, if_false, mapError_ok, ok_bind, h.supported, hdev, ne_eq,
      not_true_eq_false, pure_eq_ok]
    exact congrArg Except.ok hv.symm

theorem mount_unchecked (h : mount dev options = .ok v) :
    mount dev { options with skipValidation := true } = .ok v := by
  obtain ⟨hdevice, hslots, hcount, ⟨block, hblock, hsb⟩, hgeo, hsize, hdev, -⟩ := parts_of_mount h
  have hv : v = { device := dev, geometry := v.geometry, superblock := v.superblock,
                  cacheSlots := options.cacheSlots } := by
    rw [← hdevice, ← hslots]
  rw [mount, if_neg hcount, hblock]
  simp only [mapError_ok, ok_bind, hsb, Bool.not_true, Bool.false_eq_true, if_false, Bool.and_false,
    hgeo, hsize, hdev, ne_eq, not_true_eq_false, pure_eq_ok]
  exact congrArg Except.ok hv.symm

/-! ## Mounting bytes -/

variable {image : ByteArray}

theorem sector_of_mount {dev : Device} (hdev : dev.bytes = image) (h : mount dev options = .ok v) :
    probeSector image sectorSize = .ok (window image 0 sectorSize) ∧
      Superblock.read (window image 0 sectorSize) = .ok v.superblock ∧
      v.superblock.blockSize.toNat = supportedBlockSize := by
  obtain ⟨-, -, -, ⟨block, hblock, hread⟩, hgeo, hsize, hdevSize, -⟩ := parts_of_mount h
  obtain ⟨hin, rfl⟩ := Device.of_readBlocks_eq_ok hblock
  have hlong : 4096 ≤ image.size := by
    have hspan := Device.span_inside hin
    rwa [hdevSize, hdev] at hspan
  have hspan : dev.span 0 1 = window image 0 4096 := by
    rw [Device.span, hdevSize, hdev]
    rfl
  rw [hspan, Superblock.read_window_eq_ok (by decide) hlong (by decide)] at hread
  refine ⟨?_, ?_, ?_⟩
  · have hword : ¬ 0 + sectorSize ≥ wordLimit := by decide
    have hend : ¬ 0 + sectorSize > image.size := by
      rw [sectorSize]
      omega
    rw [probeSector, readRange, checkRange, if_neg hword, if_neg hend]
    rfl
  · have hsector : sectorSize ≤ image.size := Nat.le_trans (by decide) hlong
    exact (Superblock.read_window_eq_ok (by decide) hsector (by decide)).mpr hread
  · obtain ⟨-, heq⟩ := Superblock.geometry_eq_ok.mp hgeo
    rw [heq] at hsize
    exact hsize

/-- Mounting the bytes of an image is mounting a device of its blocks. -/
theorem mountBytes_eq_ok : mountBytes image options = .ok v ↔
    ∃ dev, Device.ofBytes image supportedBlockSize = .ok dev ∧ mount dev options = .ok v := by
  constructor
  · intro h
    simp only [mountBytes, bind_eq_ok, ite_error_eq_ok, throw_bind, mapError_eq_ok] at h
    obtain ⟨sector, -, sb, -, size, -, hsize, dev, hdev, hmount⟩ := h
    rw [Decidable.not_not.mp hsize] at hdev
    exact ⟨dev, hdev, hmount⟩
  · rintro ⟨dev, hdev, hmount⟩
    obtain ⟨-, -, heq⟩ := Device.ofBytes_eq_ok.mp hdev
    have hbytes : dev.bytes = image := by rw [heq]
    obtain ⟨hsector, hread, hsize⟩ := sector_of_mount hbytes hmount
    have hblock : BlockSize.ofNat supportedBlockSize = .ok ⟨supportedBlockSize, by decide⟩ := rfl
    rw [mountBytes, hsector, mapError_ok, ok_bind, hread, ok_bind, hsize, hblock, mapError_ok,
      ok_bind, if_neg (not_not.mpr rfl), hdev, mapError_ok, ok_bind]
    exact hmount

theorem mountBytes_unchecked (h : mountBytes image options = .ok v) :
    mountBytes image { options with skipValidation := true } = .ok v := by
  obtain ⟨dev, hdev, hmount⟩ := mountBytes_eq_ok.mp h
  exact mountBytes_eq_ok.mpr ⟨dev, hdev, mount_unchecked hmount⟩

end Volume

end XfsVolume
