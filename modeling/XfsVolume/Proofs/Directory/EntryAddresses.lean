import XfsVolume.Image.DirectoryBlock
import XfsVolume.Proofs.Digits
import XfsVolume.Proofs.Geometry.Validated
import XfsVolume.Proofs.Volume.ReadFaults

/-!
# Addresses of directory entries

An address counts units of eight bytes from the start of a directory. Since a directory block has a
power of two of them, shifting and masking takes an address apart as dividing would, and nothing is
lost: the place of a block and the byte in it make up the address again. An address has 32 bits and
so names a byte below 32 GiB, where the index region starts, whatever the sizes of the blocks; the
check for addresses past the data region never refuses one.
-/

namespace XfsVolume

namespace Geometry

variable {geo : Geometry} {db off address : Nat}

/-- An address is taken apart as it was put together. -/
theorem splitAddress_eq
    (hsize : geo.dirBlockSize.toNat = 2 ^ (geo.blockLog.toNat + geo.dirBlockLog.toNat))
    (h : address * 8 = db * geo.dirBlockSize.toNat + off) (hoff : off < geo.dirBlockSize.toNat) :
    geo.splitAddress address = (db, off) := by
  rw [splitAddress, addressUnit, h]
  rw [hsize] at hoff ⊢
  obtain ⟨hdiv, hmod⟩ := digits_eq db hoff
  rw [Nat.and_two_pow_sub_one_eq_mod, Nat.shiftRight_eq_div_pow, hdiv, hmod]

theorem splitAddress_parts
    (hsize : geo.dirBlockSize.toNat = 2 ^ (geo.blockLog.toNat + geo.dirBlockLog.toNat))
    (address : Nat) : ∃ db off, geo.splitAddress address = (db, off) ∧
      db * geo.dirBlockSize.toNat + off = 8 * address ∧ off < geo.dirBlockSize.toNat := by
  have hpos : 0 < geo.dirBlockSize.toNat := hsize ▸ Nat.two_pow_pos _
  have hparts := Nat.div_add_mod' (8 * address) geo.dirBlockSize.toNat
  have hoff := Nat.mod_lt (8 * address) hpos
  exact ⟨_, _, splitAddress_eq hsize (by omega) hoff, hparts, hoff⟩

theorem dirFileBlock_lt (hblock : geo.blockLog.toNat ≤ 16)
    (h : db * 2 ^ (geo.blockLog.toNat + geo.dirBlockLog.toNat) < indexRegionByte) :
    geo.dirFileBlock db = db * geo.blocksPerDirBlock ∧ geo.dirFileBlock db < geo.indexRegion := by
  have hfirst : db * 2 ^ geo.dirBlockLog.toNat * 2 ^ geo.blockLog.toNat < 2 ^ 35 := by
    rwa [Nat.pow_add, Nat.mul_comm (2 ^ _), ← Nat.mul_assoc] at h
  have hindex : geo.indexRegion * 2 ^ geo.blockLog.toNat = 2 ^ 35 := by
    rw [indexRegion, indexRegionByte, Nat.one_shiftLeft, Nat.shiftRight_eq_div_pow]
    exact Nat.div_mul_cancel (Nat.pow_dvd_pow 2 (by omega))
  have hlt : db * 2 ^ geo.dirBlockLog.toNat < geo.indexRegion :=
    Nat.lt_of_mul_lt_mul_right (hindex.symm ▸ hfirst)
  have hword : db * 2 ^ geo.dirBlockLog.toNat < wordLimit :=
    Nat.lt_of_le_of_lt (Nat.le_mul_of_pos_right _ (Nat.two_pow_pos _))
      (Nat.lt_trans hfirst (by decide))
  rw [dirFileBlock, Nat.shiftLeft_eq, Nat.mod_eq_of_lt hword, blocksPerDirBlock,
    Nat.one_shiftLeft]
  exact ⟨rfl, hlt⟩

end Geometry

namespace ImageOptions

variable {o : ImageOptions} {db off address : Nat}

/-- The directory block that an address made for block `db` names: where `db` starts is counted in a
word, which drops its high bits. -/
def namedBlock (o : ImageOptions) (db : Nat) : Nat := db % 2 ^ (52 - o.dirBlockLog)

theorem namedBlock_eq (h : db < 2 ^ (52 - o.dirBlockLog)) : o.namedBlock db = db :=
  Nat.mod_eq_of_lt h

/-- Addresses are given to the entries of which they count the units, and have 32 bits. -/
theorem entryAddress_eq_ok (ho : o.dirBlockLog ≤ 52) (h8 : off % 8 = 0)
    (h : o.entryAddress db off = .ok address) :
    address < UInt32.size ∧ address * 8 = o.namedBlock db * o.dirBlockSize + off := by
  have hsize : o.dirBlockSize = 2 ^ (imageBlockLog + o.dirBlockLog) := by
    rw [dirBlockSize, Nat.shiftLeft_eq, Nat.pow_add]
    rfl
  have hword : wordLimit = 2 ^ (52 - o.dirBlockLog) * o.dirBlockSize := by
    rw [hsize, ← Nat.pow_add, imageBlockLog, show 52 - o.dirBlockLog + (12 + o.dirBlockLog) = 64 by
      omega]
    rfl
  have hfirst : (db <<< (imageBlockLog + o.dirBlockLog)) % wordLimit =
      o.namedBlock db * o.dirBlockSize := by
    rw [Nat.shiftLeft_eq, ← hsize, hword, Nat.mul_mod_mul_right, namedBlock]
  have hunit : o.dirBlockSize % 8 = 0 := by
    rw [dirBlockSize, Nat.shiftLeft_eq, imageBlockSize]
    omega
  have hunits : o.namedBlock db * o.dirBlockSize % 8 = 0 := by
    rw [Nat.mul_mod, hunit, Nat.mul_zero]
  rw [entryAddress, hfirst, addressUnit] at h
  obtain ⟨hlt, rfl⟩ := fitting_eq_ok.mp h
  exact ⟨hlt, by omega⟩

end ImageOptions

/-- The fault says that an address lies past the data region. -/
def Fault.isPastData : Fault → Bool
  | .corruptDirectory _ (.addressPastData _) => true
  | _ => false

namespace Medium

/-! ## Faults of reading a directory block

None of the steps by which a directory block is mapped and read speaks of addresses. -/

theorem mapFaults_inData (m : Medium) : m.MapFaults (·.isPastData = false) where
  missing _ := rfl
  flawed _ _ _ := rfl
  unread _ _ := failsIn_mapError fun _ _ => rfl

theorem inData_readDirBlock (m : Medium) (dir : Inode) (fb : Nat) :
    CachedFailsIn (·.isPastData = false) (m.readDirBlock dir fb) := by
  have hmap := m.mapFaults_inData
  have hlist : dir.format = .extents → FailsIn (·.isPastData = false) dir.inlineExtents :=
    fun _ => failsIn_inlineExtents (fun _ => rfl) dir
  rw [readDirBlock]
  refine cachedFailsIn_liftM_bind (failsIn_dirMapFault (hmap.findExtent hlist fb) rfl)
    fun extent _ => ?_
  refine cachedFailsIn_ite (fun _ => ?_) fun _ => ?_
  · refine cachedFailsIn_liftM_bind (hmap.mappingIn extent fb) fun mapping _ => ?_
    refine cachedFailsIn_guard (fun _ => rfl) fun _ cache => ?_
    exact failsIn_mapError fun _ _ => rfl
  · exact cachedFailsIn_liftM
      (hmap.dirBlockPieces hlist rfl (fun _ _ _ => failsIn_mapError fun _ _ => rfl) _ _)

theorem inData_entryAt (m : Medium) (dir : Inode) (address : UInt32)
    (h : m.geometry.dirFileBlock (m.geometry.splitAddress address.toNat).1 <
      m.geometry.indexRegion) :
    CachedFailsIn (·.isPastData = false) (m.entryAt dir address) := by
  rw [entryAt]
  refine cachedFailsIn_guard (fun hpast => absurd h (Nat.not_lt.mpr hpast)) fun _ => ?_
  refine cachedFailsIn_bind (m.inData_readDirBlock dir _) fun block => ?_
  refine cachedFailsIn_liftM_bind (failsIn_mapError fun _ _ => rfl) fun header _ => ?_
  refine cachedFailsIn_guard (fun _ => rfl) fun _ => ?_
  refine cachedFailsIn_liftM_bind (failsIn_mapError fun _ _ => rfl) fun slot _ => ?_
  cases slot with
  | entry e => exact cachedFailsIn_pure _
  | free n => exact cachedFailsIn_throw rfl

end Medium

namespace Superblock

variable {sb : Superblock}

theorem Shiftable.dirBlockSize_eq (h : sb.Shiftable) : sb.storedGeometry.dirBlockSize.toNat =
    2 ^ (sb.storedGeometry.blockLog.toNat + sb.storedGeometry.dirBlockLog.toNat) := by
  have hlt : 2 ^ (sb.blockLog.toNat + sb.dirBlockLog.toNat) < UInt32.size :=
    Nat.lt_of_le_of_lt (Nat.pow_le_pow_right Nat.two_pos h.dirBlock) (by decide)
  rw [storedGeometry, ← h.blockSize, Nat.one_shiftLeft, Nat.shiftLeft_eq, ← Nat.pow_add]
  exact UInt32.toNat_ofNat_of_lt' hlt

/-- **Entry addresses are exact.** Under every geometry that a superblock has, the parts of a 32-bit
address make up the byte that it names, and its block is a whole directory block of the data region.
So an entry that is looked at by its address, in any directory and through any cache, is never
refused as lying past that region. Where the geometry is that of a volume laid out from `o`, as the
logarithms say, every address that is given to an entry lies in the data region too. It is taken
apart into the byte that it was made from and what a word leaves of the block; that is the block
itself if it starts at a byte that a word counts. The blocks of a directory do: they are counted from
zero, and the first that starts past 32 GiB is refused. -/
theorem entryAddresses_exact {geo : Geometry} (h : sb.geometry = .ok geo) :
    (∀ address : UInt32, ∃ db off, geo.splitAddress address.toNat = (db, off) ∧
      db * geo.dirBlockSize.toNat + off = 8 * address.toNat ∧ off < geo.dirBlockSize.toNat ∧
      geo.dirFileBlock db = db * geo.blocksPerDirBlock ∧
      geo.dirFileBlock db < geo.indexRegion) ∧
    (∀ (m : Medium) (dir : Inode) (address : UInt32) (cache : BlockCache) (fb a : Nat),
      m.geometry = geo →
        ((m.entryAt dir address).run.run cache).1 ≠ .error (dirFault fb (.addressPastData a))) ∧
    ∀ (o : ImageOptions) (db off address : Nat), geo.blockLog.toNat = imageBlockLog →
      geo.dirBlockLog.toNat = o.dirBlockLog → off % 8 = 0 → off < o.dirBlockSize →
      o.entryAddress db off = .ok address →
        address < UInt32.size ∧ geo.splitAddress address = (o.namedBlock db, off) ∧
          o.namedBlock db * o.dirBlockSize + off < indexRegionByte ∧
          (db < 2 ^ (52 - o.dirBlockLog) → geo.splitAddress address = (db, off)) := by
  obtain ⟨hshift, rfl⟩ := geometry_eq_ok.mp h
  have hsize := hshift.dirBlockSize_eq
  have hplace : ∀ address : UInt32, ∃ db off,
      sb.storedGeometry.splitAddress address.toNat = (db, off) ∧
      db * sb.storedGeometry.dirBlockSize.toNat + off = 8 * address.toNat ∧
      off < sb.storedGeometry.dirBlockSize.toNat ∧
      sb.storedGeometry.dirFileBlock db = db * sb.storedGeometry.blocksPerDirBlock ∧
      sb.storedGeometry.dirFileBlock db < sb.storedGeometry.indexRegion := by
    intro address
    obtain ⟨db, off, hsplit, hparts, hoff⟩ := Geometry.splitAddress_parts hsize address.toNat
    have hlt := address.toNat_lt
    have hfirst : db * sb.storedGeometry.dirBlockSize.toNat < indexRegionByte := by
      rw [indexRegionByte]
      omega
    rw [hsize] at hfirst
    obtain ⟨hblock, hdata⟩ := Geometry.dirFileBlock_lt hshift.blockLog hfirst
    exact ⟨db, off, hsplit, hparts, hoff, hblock, hdata⟩
  refine ⟨hplace, ?_, ?_⟩
  · rintro m dir address cache fb a hgeo hpast
    obtain ⟨db, off, hsplit, -, -, -, hdata⟩ := hplace address
    have hin := m.inData_entryAt dir address (by rwa [hgeo, hsplit]) cache _ hpast
    cases hin
  · intro o db off address hblockLog hdirLog h8 hoff haddress
    have hdir : sb.storedGeometry.dirBlockSize.toNat = o.dirBlockSize := by
      rw [hsize, hblockLog, hdirLog, ImageOptions.dirBlockSize, Nat.shiftLeft_eq, Nat.pow_add]
      rfl
    have hlog : o.dirBlockLog ≤ 52 := by
      have hle := hshift.dirBlock
      have hlog : sb.dirBlockLog.toNat = o.dirBlockLog := hdirLog
      omega
    obtain ⟨hlt, hunits⟩ := ImageOptions.entryAddress_eq_ok hlog h8 haddress
    have hbyte : address * 8 = o.namedBlock db * sb.storedGeometry.dirBlockSize.toNat + off := by
      rw [hunits, hdir]
    have hsplit := Geometry.splitAddress_eq hsize hbyte (hdir.symm ▸ hoff)
    rw [UInt32.size] at hlt
    refine ⟨hlt, hsplit, ?_, fun hdb => ?_⟩
    · rw [← hunits, indexRegionByte]
      omega
    · rw [hsplit, ImageOptions.namedBlock_eq hdb]

/-- Directory blocks of 64 KiB, and the largest address: the last eight bytes before 32 GiB. -/
theorem entryAddresses_exact_largest : ∃ geo,
    ({ twoGroups 64 with dirBlockLog := 4 } : Superblock).geometry = .ok geo ∧
      ({ dirBlockLog := 4 } : ImageOptions).entryAddress 0x7FFFF 0xFFF8 = .ok 0xFFFFFFFF ∧
      geo.splitAddress 0xFFFFFFFF = (0x7FFFF, 0xFFF8) ∧
      0x7FFFF * geo.dirBlockSize.toNat + 0xFFF8 = 8 * 0xFFFFFFFF ∧
      geo.dirFileBlock 0x7FFFF < geo.indexRegion := by
  have hgeo : ({ twoGroups 64 with dirBlockLog := 4 } : Superblock).geometry = .ok _ := rfl
  obtain ⟨hplace, -, hmade⟩ := entryAddresses_exact hgeo
  have haddress : ({ dirBlockLog := 4 } : ImageOptions).entryAddress 0x7FFFF 0xFFF8 =
      .ok 0xFFFFFFFF := rfl
  obtain ⟨-, -, -, hsame⟩ := hmade { dirBlockLog := 4 } _ _ _ rfl rfl rfl (by decide) haddress
  have hsplit := hsame (by decide)
  obtain ⟨db, off, hparts, hbyte, -, -, hdata⟩ := hplace 0xFFFFFFFF
  obtain ⟨rfl, rfl⟩ := Prod.mk.inj (hparts.symm.trans hsplit)
  exact ⟨_, hgeo, haddress, hsplit, hbyte, hdata⟩

end Superblock

end XfsVolume
