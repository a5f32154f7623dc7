import XfsVolume.Proofs.Extent.Mapping
import XfsVolume.Proofs.Image.Frames

/-!
# What a medium shows of a volume that was built

A medium keeps a volume that is being built when it has its measures and the bytes handed out so
far, apart from those of `spare`, which may be written again (`Medium.Keeps`). What keeps the volume
that a step leaves also keeps the one that it started from, so that a volume is read back from its
end: blocks hold on the medium what was written to them (`Medium.Shows`).
-/

namespace XfsVolume

namespace ImageOptions

variable {o : ImageOptions} {geo : Geometry} {address count ag agBlock : Nat}

theorem Measures.groupBlock (h : o.Measures geo) (ag agBlock : Nat) :
    geo.groupBlock ag agBlock = o.volumeBlock ag agBlock := by
  rw [Geometry.groupBlock, h.agBlocks, volumeBlock]

/-- The address of a run names its first block. -/
theorem Run.deviceBlock (h : o.Run address count ag agBlock) (hm : o.Measures geo)
    (hc : 0 < count) : geo.deviceBlock address = .ok (o.volumeBlock ag agBlock) := by
  have hroom := h.room
  have hlog := o.agBlocks_le
  have hgroup : ag < geo.agCount.toNat := by
    rw [hm.agCount]
    exact h.group
  have haddress : agBlock < 1 <<< geo.agBlockLog.toNat := by
    rw [hm.agBlockLog, Nat.one_shiftLeft]
    omega
  have hblock : agBlock < geo.agBlocks.toNat := by
    rw [hm.agBlocks]
    omega
  rw [h.address, ← hm.agBlockLog, Geometry.deviceBlock_eq hgroup haddress hblock, hm.groupBlock]

/-- Addresses of blocks fit a packed extent. -/
theorem InMemory.address_lt (ho : o.InMemory) (h : o.Run address count ag agBlock)
    (hc : 0 < count) : address < 2 ^ addressBits := by
  have hlt := h.address_lt_mul hc
  have htotal := ho.totalBlocks_lt
  have haddresses := ho.addresses_le
  rw [addressBits]
  omega

/-- Runs whose addresses continue one another continue one another in one group. The last block of
a group is not continued by the next group, whose first block is never handed out. -/
theorem Run.join {count' ag' agBlock' : Nat} (h : o.Run address count ag agBlock)
    (h' : o.Run (address + count) count' ag' agBlock') (hc : 0 < count') :
    o.Run address (count + count') ag agBlock ∧ ag' = ag ∧ agBlock' = agBlock + count := by
  have hroom := h.room
  have hroom' := h'.room
  have hpos := h'.afterHeaders
  have hlog := o.agBlocks_le
  have heq := h'.address
  rw [h.address, Nat.add_assoc, Nat.shiftLeft_eq, Nat.shiftLeft_eq] at heq
  have hag : ag' = ag := by
    rcases Nat.lt_trichotomy ag' ag with hlt | hsame | hlt
    · have hmul : (ag' + 1) * 2 ^ o.agBlockLog ≤ ag * 2 ^ o.agBlockLog :=
        Nat.mul_le_mul_right _ hlt
      rw [Nat.add_mul] at hmul
      omega
    · exact hsame
    · have hmul : (ag + 1) * 2 ^ o.agBlockLog ≤ ag' * 2 ^ o.agBlockLog :=
        Nat.mul_le_mul_right _ hlt
      rw [Nat.add_mul] at hmul
      omega
  subst hag
  exact ⟨⟨h.address, h.group, h.afterHeaders, by omega⟩, rfl, by omega⟩

end ImageOptions

namespace Medium

variable {m : Medium} {o : ImageOptions} {b b' : Builder} {spare : Nat → Prop}

/-! ## Media that keep a volume -/

/-- The medium has the measures of `b`, and the bytes that `b` has handed out but for those of
`spare`. -/
structure Keeps (m : Medium) (spare : Nat → Prop) (b : Builder) : Prop where
  inMemory : b.options.InMemory
  measures : b.options.Measures m.geometry
  blockSize : m.device.blockSize = imageBlockSize
  size : m.device.bytes.size = b.options.totalBlocks * imageBlockSize
  keeps : ∀ {i}, b.Owns i → ¬ spare i → byteAt m.device.bytes i = byteAt b.image i

theorem Keeps.sized (h : m.Keeps spare b) : m.device.Sized := by
  have htotal := h.inMemory.totalBlocks_lt
  rw [Device.Sized, h.size, wordLimit, UInt64.size, imageBlockSize]
  omega

theorem Keeps.blockCount (h : m.Keeps spare b) : m.device.blockCount = b.options.totalBlocks := by
  rw [Device.blockCount, h.size, h.blockSize]
  exact Nat.mul_div_cancel _ (by decide)

/-- What keeps the volume that a step leaves keeps the one before it, but for what the step was
given to write. -/
theorem Keeps.back {spare' : Nat → Prop} (h : m.Keeps spare b') (hg : b.Grows spare' b') :
    m.Keeps (fun i => spare i ∨ spare' i) b where
  inMemory := by
    rw [← hg.options]
    exact h.inMemory
  measures := by
    rw [← hg.options]
    exact h.measures
  blockSize := h.blockSize
  size := by
    rw [← hg.options]
    exact h.size
  keeps hi hspare := by
    obtain ⟨hnot, hnot'⟩ := not_or.mp hspare
    rw [h.keeps (hg.owns hi) hnot, hg.keeps (Or.inl hi) hnot']

/-- The same for a step that was given nothing to write. -/
theorem Keeps.before (h : m.Keeps spare b') (hg : b.Grows (fun _ => False) b') :
    m.Keeps spare b := by
  have hback := h.back hg
  exact ⟨hback.inMemory, hback.measures, hback.blockSize, hback.size, fun hi hspare =>
    hback.keeps hi fun hor => hor.elim hspare id⟩

/-! ## Blocks of a medium -/

/-- The `count` blocks from `address` on hold `data` on the medium. -/
def Shows (m : Medium) (o : ImageOptions) (address count : Nat) (data : ByteArray) : Prop :=
  ∃ ag agBlock, o.Run address count ag agBlock ∧
    m.device.span (o.volumeBlock ag agBlock) count = data

/-- Blocks that were handed out and are not written again hold what the volume has in them. -/
theorem Keeps.shows {address count ag agBlock : Nat} {data : ByteArray} (h : m.Keeps spare b)
    (hrun : b.options.Run address count ag agBlock) (hc : 0 < count)
    (hsize : data.size = count * imageBlockSize)
    (hown : ∀ {i}, b.options.InBlocks address count i → b.Owns i ∧ ¬ spare i)
    (hdata : ∀ i < data.size, byteAt b.image (b.options.blockOffset address + i) = byteAt data i) :
    m.Shows b.options address count data := by
  have hoffset := hrun.blockOffset_eq hc
  have hstop := hrun.stop_le hc
  have hspan : (m.device.span (b.options.volumeBlock ag agBlock) count).size =
      count * imageBlockSize := by
    rw [Device.size_span (by rwa [h.blockCount]), h.blockSize]
  refine ⟨ag, agBlock, hrun, bytes_ext (hspan.trans hsize.symm) fun i hi => ?_⟩
  rw [hspan] at hi
  obtain ⟨hhanded, hkept⟩ :=
    hown (i := b.options.blockOffset address + i) ⟨by omega, by omega⟩
  rw [Device.span, h.blockSize, byteAt_window hi, ← hoffset, h.keeps hhanded hkept]
  exact hdata i (by omega)

/-- A block of a range of blocks holds its part of the range's bytes. -/
theorem block_of_span (hblock : m.device.blockSize = imageBlockSize) {start count k : Nat}
    (hk : k < count) : m.device.block (start + k) =
      window (m.device.span start count) (k * imageBlockSize) imageBlockSize := by
  rw [Device.block, Device.span, Device.span, hblock, window_window (unit_stop_le _ hk),
    Nat.one_mul, Nat.add_mul]

/-- An extent over a run of blocks lies in one group of the medium. -/
theorem Keeps.placed {e : Extent} {ag agBlock : Nat} (h : m.Keeps spare b)
    (hrun : b.options.Run e.address e.count ag agBlock) (hc : 0 < e.count) :
    m.Placed e ag agBlock := by
  have hroom := hrun.room
  have hlog := b.options.agBlocks_le
  have hstop := hrun.stop_le hc
  have hm := h.measures
  refine ⟨?_, ?_, ?_, ?_, ?_, ?_⟩
  · rw [hm.agBlockLog]
    exact hrun.address
  · rw [hm.agCount]
    exact hrun.group
  · rw [hm.agBlockLog, Nat.one_shiftLeft]
    omega
  · rw [hm.agBlocks]
    exact hroom
  · rw [hm.groupBlock, hm.dataBlocks]
    exact hstop
  · rw [hm.groupBlock, h.blockCount]
    exact hstop

/-- A node that was written stands where it was written. -/
theorem Keeps.nodeAt {address level : Nat} {data : ByteArray} {node : TreeNode}
    (h : m.Keeps spare b) (hs : m.Shows b.options address 1 data)
    (hdecode : TreeNode.decode data = .ok node) (hcrc : node.crc = b.options.isV5)
    (hlevel : node.level = level) : ∃ ag agBlock, b.options.Run address 1 ag agBlock ∧
      m.NodeAt address level (b.options.volumeBlock ag agBlock) node := by
  obtain ⟨ag, agBlock, hrun, hspan⟩ := hs
  have hblock := ImageOptions.volumeBlock_lt hrun.group (Nat.lt_of_succ_le hrun.room)
  refine ⟨ag, agBlock, hrun, hrun.deviceBlock h.measures Nat.one_pos, ?_, ?_, ?_, ?_, hlevel⟩
  · rw [h.measures.dataBlocks]
    exact hblock
  · rw [h.blockCount]
    exact hblock
  · rw [Device.block, hspan]
    exact hdecode
  · rw [hcrc, h.measures.isV5]

end Medium

namespace BuildM

open Builder

variable {b b' : Builder} {m : Medium} {spare : Nat → Prop}

theorem shows_of_gives {address count ag agBlock : Nat} {data : ByteArray} {u : Unit}
    (hb : b.Sound) (h : Gives (writeBlocks address data) b u b') (hk : m.Keeps spare b')
    (hrun : b.options.Run address count ag agBlock) (hc : 0 < count)
    (hsize : data.size = count * imageBlockSize)
    (hown : ∀ {i}, b.options.InBlocks address count i → b.Owns i ∧ ¬ spare i) :
    m.Shows b.options address count data := by
  obtain rfl := gives_writeBlocks.mp h
  have hin := hrun.bytes_le hc
  rw [← hb.size, ← hsize] at hin
  refine hk.shows hrun hc hsize hown fun i hi => ?_
  show byteAt (overwrite b.image (b.options.blockOffset address) data)
    (b.options.blockOffset address + i) = _
  rw [byteAt_overwrite hin, if_pos ⟨Nat.le_add_right _ _, Nat.add_lt_add_left hi _⟩,
    Nat.add_sub_cancel_left]

/-- `b'` is `b` after blocks were taken for `data` and written with it. -/
structure Stored (b : Builder) (address count : Nat) (data : ByteArray) (b' : Builder) : Prop where
  sound : b'.Sound
  options : b'.options = b.options
  taken : b'.taken = b.taken + count
  grows : b.Grows (fun _ => False) b'
  run : ∃ ag agBlock, b.options.Run address count ag agBlock
  shows : ∀ {m : Medium} {spare : Nat → Prop}, m.Keeps spare b' → (∀ {i}, spare i → b.Owns i) →
    m.Shows b.options address count data

/-- Blocks that are taken and written hold what was written to them. -/
theorem stored_of_gives {address count : Nat} {data : ByteArray} {u : Unit} {mid : Builder}
    (hb : b.Sound) (hc : 0 < count) (htake : Gives (allocate count) b address mid)
    (hwrite : Gives (writeBlocks address data) mid u b')
    (hsize : data.size = count * imageBlockSize) : Stored b address count data b' := by
  have hgained := gained_of_gives htake hb
  obtain ⟨ag, agBlock, hrun⟩ := hgained.run hc
  have hrunMid := hrun
  rw [← hgained.options] at hrunMid
  have hframe : Frames (fun i => False ∨ b.options.InBlocks address count i)
      (writeBlocks address data) mid := by
    refine frames_writeBlocks hrunMid hc (Nat.le_of_eq hsize) fun hi => ?_
    rw [hgained.options] at hi
    exact Or.inr hi
  obtain ⟨hsound, hgrows⟩ := hframe.of_gives hgained.sound hwrite
  refine ⟨hsound, hgrows.options.trans hgained.options, ?_, ?_, ⟨ag, agBlock, hrun⟩, ?_⟩
  · obtain rfl := gives_writeBlocks.mp hwrite
    exact hgained.taken
  · exact (hgained.grows _).absorb hgrows hgained.free hgained.owned
  · intro m spare hk hs
    rw [← hgained.options]
    refine shows_of_gives hgained.sound hwrite hk hrunMid hc hsize fun hi => ?_
    rw [hgained.options] at hi
    exact ⟨hgained.owned hi, fun hin => hgained.free hi (hs hin)⟩

end BuildM

end XfsVolume
