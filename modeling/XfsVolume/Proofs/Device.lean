import XfsVolume.Medium
import XfsVolume.Proofs.Bytes
import XfsVolume.Proofs.Steps

/-!
# Blocks of a device

A range of blocks below the block count is a range of bytes of the device, so reading it succeeds
and gives those bytes. A device's length is a 64-bit number (`Device.Sized`).
-/

namespace XfsVolume

namespace Device

/-- The device's length is a word. -/
def Sized (dev : Device) : Prop := dev.bytes.size < wordLimit

instance (dev : Device) : Decidable dev.Sized := inferInstanceAs (Decidable (_ < _))

def span (dev : Device) (start count : Nat) : ByteArray :=
  window dev.bytes (start * dev.blockSize) (count * dev.blockSize)

def block (dev : Device) (block : Nat) : ByteArray := dev.span block 1

theorem blockCount_le (dev : Device) : dev.blockCount ≤ dev.bytes.size := Nat.div_le_self _ _

/-- Bytes are a device if the blocks have a power of two bytes and fill them. -/
theorem ofBytes_eq_ok {bytes : ByteArray} {blockSize : Nat} {dev : Device} :
    ofBytes bytes blockSize = .ok dev ↔
      isPowerOfTwo blockSize = true ∧ bytes.size % blockSize = 0 ∧ dev = ⟨bytes, blockSize⟩ := by
  rw [ofBytes, ite_error_eq_ok, ite_error_eq_ok, Bool.not_eq_true', Bool.not_eq_false, ne_eq,
    Decidable.not_not, Except.ok.injEq, eq_comm (b := dev)]

theorem span_inside {dev : Device} {start count : Nat} (h : start + count ≤ dev.blockCount) :
    start * dev.blockSize + count * dev.blockSize ≤ dev.bytes.size := by
  rw [← Nat.add_mul]
  exact Nat.le_trans (Nat.mul_le_mul_right _ h) (Nat.div_mul_le_self _ _)

theorem size_span {dev : Device} {start count : Nat} (h : start + count ≤ dev.blockCount) :
    (dev.span start count).size = count * dev.blockSize :=
  size_window_of_le (span_inside h)

theorem size_block {dev : Device} {b : Nat} (h : b < dev.blockCount) :
    (dev.block b).size = dev.blockSize := by
  rw [block, size_span h, Nat.one_mul]

/-- The blocks of a range are its first and those behind it. -/
theorem span_succ {dev : Device} {start count : Nat} (h : start < dev.blockCount) :
    dev.span start (count + 1) = dev.block start ++ dev.span (start + 1) count := by
  have hend : start * dev.blockSize + 1 * dev.blockSize ≤ dev.bytes.size := span_inside h
  rw [span, block, span, span, Nat.add_mul start 1, window_append_window _ _ _ hend, ← Nat.add_mul,
    Nat.add_comm 1 count]

theorem of_readBlocks_eq_ok {dev : Device} {start count : Nat} {data : ByteArray}
    (h : dev.readBlocks start count = .ok data) :
    start + count ≤ dev.blockCount ∧ data = dev.span start count := by
  simp only [readBlocks, readRange, ite_error_eq_ok, bind_eq_ok, pure_eq_ok] at h
  obtain ⟨-, -, hend, -, -, heq⟩ := h
  exact ⟨Nat.not_lt.mp hend, (Except.ok.inj heq).symm⟩

/-- Reading blocks that the device has gives their bytes. -/
theorem readBlocks_eq {dev : Device} (hs : dev.Sized) {start count : Nat} (hc : 0 < count)
    (h : start + count ≤ dev.blockCount) :
    dev.readBlocks start count = .ok (dev.span start count) := by
  have hcount := dev.blockCount_le
  have hin := span_inside h
  rw [Sized] at hs
  rw [readBlocks, if_neg (by omega), if_neg (by omega), if_neg (by omega), readRange, checkRange,
    if_neg (by omega), if_neg (by omega)]
  rfl

/-- Only blocks that the device has are read. -/
theorem readBlocks_eq_ok {dev : Device} (hs : dev.Sized) {start count : Nat} {data : ByteArray} :
    dev.readBlocks start count = .ok data ↔
      0 < count ∧ start + count ≤ dev.blockCount ∧ data = dev.span start count := by
  constructor
  · intro h
    obtain ⟨hin, heq⟩ := of_readBlocks_eq_ok h
    rw [readBlocks, ite_error_eq_ok] at h
    exact ⟨Nat.pos_of_ne_zero h.1, hin, heq⟩
  · rintro ⟨hpos, hin, rfl⟩
    exact readBlocks_eq hs hpos hin

end Device

namespace Medium

theorem readBlocks_eq_ok {m : Medium} (hs : m.device.Sized) {start count : Nat}
    {data : ByteArray} : m.readBlocks start count = .ok data ↔
      0 < count ∧ start + count ≤ m.device.blockCount ∧ data = m.device.span start count := by
  rw [readBlocks, mapError_eq_ok, Device.readBlocks_eq_ok hs]

theorem readBlocks_eq {m : Medium} (hs : m.device.Sized) {start count : Nat} (hc : 0 < count)
    (h : start + count ≤ m.device.blockCount) :
    m.readBlocks start count = .ok (m.device.span start count) := by
  rw [readBlocks, Device.readBlocks_eq hs hc h]
  rfl

theorem readBlock_eq {m : Medium} (hs : m.device.Sized) {block : Nat}
    (h : block < m.device.blockCount) : m.readBlock block = .ok (m.device.block block) :=
  readBlocks_eq hs Nat.one_pos h

end Medium

end XfsVolume
