import XfsVolume.Proofs.Bytes
import XfsVolume.Proofs.Steps
import XfsVolume.Volume.Basic

/-!
# Reading a superblock

Decoding a region that carries the mark and is long enough always succeeds, and gives the fields as
they stand (`Superblock.stored`). The geometry repeats them.
-/

namespace XfsVolume

namespace Superblock

def stored (region : ByteArray) : Superblock :=
  let versionNum := UInt16.ofNat (beNat region 100 2)
  let isV5 := versionOf versionNum == 5
  let v5Word (off : Nat) : UInt32 := if isV5 then UInt32.ofNat (beNat region off 4) else 0
  { blockSize := UInt32.ofNat (beNat region 4 4)
    dataBlocks := UInt64.ofNat (beNat region 8 8)
    realtimeBlocks := UInt64.ofNat (beNat region 16 8)
    realtimeExtents := UInt64.ofNat (beNat region 24 8)
    uuid := byteList (window region 32 16)
    logStart := UInt64.ofNat (beNat region 48 8)
    rootIno := UInt64.ofNat (beNat region 56 8)
    realtimeBitmapIno := UInt64.ofNat (beNat region 64 8)
    realtimeSummaryIno := UInt64.ofNat (beNat region 72 8)
    realtimeExtentSize := UInt32.ofNat (beNat region 80 4)
    agBlocks := UInt32.ofNat (beNat region 84 4)
    agCount := UInt32.ofNat (beNat region 88 4)
    realtimeBitmapBlocks := UInt32.ofNat (beNat region 92 4)
    logBlocks := UInt32.ofNat (beNat region 96 4)
    versionNum
    sectorSize := UInt16.ofNat (beNat region 102 2)
    inodeSize := UInt16.ofNat (beNat region 104 2)
    inodesPerBlock := UInt16.ofNat (beNat region 106 2)
    label := paddedText (byteList (window region 108 12))
    blockLog := UInt8.ofNat (beNat region 120 1)
    sectorLog := UInt8.ofNat (beNat region 121 1)
    inodeLog := UInt8.ofNat (beNat region 122 1)
    inodesPerBlockLog := UInt8.ofNat (beNat region 123 1)
    agBlockLog := UInt8.ofNat (beNat region 124 1)
    realtimeExtentsLog := UInt8.ofNat (beNat region 125 1)
    inProgress := UInt8.ofNat (beNat region 126 1)
    inodeMaxPercent := UInt8.ofNat (beNat region 127 1)
    inodeCount := UInt64.ofNat (beNat region 128 8)
    freeInodes := UInt64.ofNat (beNat region 136 8)
    freeBlocks := UInt64.ofNat (beNat region 144 8)
    freeRealtimeExtents := UInt64.ofNat (beNat region 152 8)
    features2 := UInt32.ofNat (beNat region 200 4)
    dirBlockLog := UInt8.ofNat (beNat region 192 1)
    compatFeatures := v5Word 208
    readOnlyFeatures := v5Word 212
    incompatFeatures := v5Word 216
    logFeatures := v5Word 220
    metaUuid := if isV5 then byteList (window region 248 16) else List.replicate 16 0 }

/-- A marked region that is long enough holds a superblock. -/
theorem decode_eq {region : ByteArray} (hw : region.size < wordLimit)
    (hs : superblockLength ≤ region.size) (hm : UInt32.ofNat (beNat region 0 4) = superblockMagic) :
    decode region = .ok (stored region) := by
  have hlen : ¬ region.size < superblockLength := Nat.not_lt.mpr hs
  rw [superblockLength] at hs
  rw [decode, if_neg hlen, readU32_eq hw (by omega), ok_bind, hm, if_neg (fun h => h rfl)]
  simp (disch := omega) only [readU8_eq_ofNat hw, readU16_eq hw, readU32_eq hw, readU64_eq hw,
    readBytes_eq hw]
  rw [ok_bind, stored]
  cases versionOf (UInt16.ofNat (beNat region 100 2)) == 5
  · rfl
  · rfl

theorem read_eq {region : ByteArray} (hw : region.size < wordLimit)
    (hs : superblockLength ≤ region.size) (hm : UInt32.ofNat (beNat region 0 4) = superblockMagic) :
    read region = .ok (stored region) := by
  rw [read, decode_eq hw hs hm, mapError_ok]

theorem read_eq_ok {region : ByteArray} {sb : Superblock} (hw : region.size < wordLimit) :
    read region = .ok sb ↔ superblockLength ≤ region.size ∧
      UInt32.ofNat (beNat region 0 4) = superblockMagic ∧ sb = stored region := by
  constructor
  · intro h
    rw [read, mapError_eq_ok] at h
    by_cases hs : region.size < superblockLength
    · rw [decode, if_pos hs] at h
      cases h
    · have hlong := hs
      rw [superblockLength] at hlong
      by_cases hm : UInt32.ofNat (beNat region 0 4) = superblockMagic
      · rw [decode_eq hw (Nat.not_lt.mp hs) hm] at h
        exact ⟨Nat.not_lt.mp hs, hm, (Except.ok.inj h).symm⟩
      · rw [decode, if_neg hs, readU32_eq hw (by omega), ok_bind, if_pos hm] at h
        cases h
  · rintro ⟨hs, hm, rfl⟩
    exact read_eq hw hs hm

theorem stored_window (b : ByteArray) {n : Nat} (h : superblockLength ≤ n) :
    stored (window b 0 n) = stored b := by
  rw [superblockLength] at h
  simp (disch := omega) only [stored, beNat_window, window_window, Nat.zero_add]

theorem read_window_eq_ok {b : ByteArray} {n : Nat} {sb : Superblock} (h : superblockLength ≤ n)
    (hn : n ≤ b.size) (hw : n < wordLimit) : read (window b 0 n) = .ok sb ↔
      UInt32.ofNat (beNat b 0 4) = superblockMagic ∧ sb = stored b := by
  have hsize : (window b 0 n).size = n := size_window_of_le (by omega)
  have hlong := h
  rw [superblockLength] at hlong
  rw [read_eq_ok (by rwa [hsize]), hsize, stored_window b h, beNat_window (by omega), Nat.zero_add]
  exact and_iff_right h

/-! ## Geometry -/

def storedGeometry (sb : Superblock) : Geometry where
  blockSize := sb.blockSize
  blockLog := sb.blockLog
  dataBlocks := sb.dataBlocks
  agBlocks := sb.agBlocks
  agBlockLog := sb.agBlockLog
  agCount := sb.agCount
  inodeSize := sb.inodeSize
  inodeLog := sb.inodeLog
  inodesPerBlockLog := sb.inodesPerBlockLog
  dirBlockLog := sb.dirBlockLog
  dirBlockSize := UInt32.ofNat (sb.blockSize.toNat <<< sb.dirBlockLog.toNat)
  rootIno := sb.rootIno
  isV5 := sb.isV5
  hasFtype := sb.hasFtype

/-- The shifts derived from the superblock are meaningful. -/
structure Shiftable (sb : Superblock) : Prop where
  blockLog : sb.blockLog.toNat ≤ 16
  blockSize : 1 <<< sb.blockLog.toNat = sb.blockSize.toNat
  inodeBits : sb.agBlockLog.toNat + sb.inodesPerBlockLog.toNat < 64
  inodeLog : sb.inodeLog.toNat ≤ 15
  agBlocks : sb.agBlocks ≠ 0
  agCount : sb.agCount ≠ 0
  dirBlock : sb.blockLog.toNat + sb.dirBlockLog.toNat ≤ 16

/-- A superblock has a geometry when its shifts are meaningful, and then that which repeats it. -/
theorem geometry_eq_ok {sb : Superblock} {geo : Geometry} :
    sb.geometry = .ok geo ↔ sb.Shiftable ∧ geo = sb.storedGeometry := by
  simp only [geometry, checkDirBlockSize, throw_bind, bind_eq_ok, ite_error_eq_ok, pure_eq_ok,
    Bool.or_eq_true, decide_eq_true_eq, beq_iff_eq, not_or]
  constructor
  · rintro ⟨hsize, ⟨⟨⟨hbits, hlog⟩, hb⟩, hc⟩, -, ⟨hdir, -⟩, heq⟩
    cases heq
    exact ⟨⟨by omega, by omega, by omega, by omega, hb, hc, by omega⟩, rfl⟩
  · rintro ⟨h, rfl⟩
    have := h.blockLog
    have := h.blockSize
    have := h.inodeBits
    have := h.inodeLog
    have := h.dirBlock
    exact ⟨by omega, ⟨⟨⟨by omega, by omega⟩, h.agBlocks⟩, h.agCount⟩, (), ⟨by omega, trivial⟩, rfl⟩

end Superblock

end XfsVolume
