import XfsVolume.Image.Files
import XfsVolume.Proofs.Image.Callers
import XfsVolume.Proofs.Image.Placement
import XfsVolume.Proofs.Volume.FileData

/-!
# Blocks of files

A file is made of extents over blocks that it is given, and its bytes are written there: the
contents of a plain file one block behind the other, the pattern of a patterned file block by block.
On a medium that keeps the volume, each byte of a written extent is where the extent says
(`Medium.Stores`), so that a read of the file gives its bytes, and zeros for whatever lies in no
written extent (`Volume.readData_of_stores`).
-/

namespace XfsVolume

namespace ImageOptions

variable {o : ImageOptions} {address count ag agBlock i : Nat}

theorem Run.first_apart (h : o.Run address (count + 1) ag agBlock)
    (hi : o.InBlocks address 1 i) : ¬ o.InBlocks (address + 1) count i := by
  intro hrest
  rcases Nat.eq_zero_or_pos count with rfl | hpos
  · rw [InBlocks] at hrest
    omega
  · rw [InBlocks, h.blockOffset_add (by omega), Nat.add_mul] at hrest
    rw [InBlocks, h.blockOffset_eq (by omega)] at hi
    omega

end ImageOptions

namespace Medium

variable {m : Medium} {o : ImageOptions} {b : Builder} {spare : Nat → Prop} {extents : List Extent}
  {address count ag agBlock k : Nat} {data : ByteArray}

/-- Each of the blocks holds its part of the bytes. -/
theorem Shows.block (h : m.Shows o address count data)
    (hblock : m.device.blockSize = imageBlockSize) (hk : k < count) :
    m.Shows o (address + k) 1 (window data (k * imageBlockSize) imageBlockSize) := by
  obtain ⟨ag, agBlock, hrun, rfl⟩ := h
  refine ⟨ag, agBlock + k, hrun.part hk, ?_⟩
  rw [ImageOptions.volumeBlock_add, ← block_of_span hblock hk]
  rfl

/-- A block of a run is what is shown at its address. -/
theorem Shows.block_eq (h : m.Shows o (address + k) 1 data) (hm : o.Measures m.geometry)
    (hrun : o.Run address count ag agBlock) (hk : k < count) :
    m.device.block (o.volumeBlock ag agBlock + k) = data := by
  obtain ⟨ag', agBlock', hrun', rfl⟩ := h
  have hhere : o.Run (address + k) 1 ag (agBlock + k) := hrun.part hk
  have hplace := hhere.deviceBlock hm Nat.one_pos
  rw [hrun'.deviceBlock hm Nat.one_pos, Except.ok.injEq, ImageOptions.volumeBlock_add] at hplace
  rw [Device.block, hplace]

/-! ## Contents -/

/-- The extents stand in order, and hold a file of `size` bytes whose byte at `pos` is
`content pos`: what is in no written extent is zero, and a block of a written extent holds its part
of the file, as far as that goes. -/
structure Stores (m : Medium) (o : ImageOptions) (extents : List Extent) (size : Nat)
    (content : Nat → UInt8) : Prop where
  placing : o.Placing extents.reverse (2 ^ startBits)
  zero : ∀ pos < size,
    (∀ e ∈ extents, e.Holds (pos / imageBlockSize) → e.unwritten = true) → content pos = 0
  written : ∀ e ∈ extents, e.unwritten = false → ∀ k < e.count, ∃ block : ByteArray,
    m.Shows o (e.address + k) 1 block ∧ ∀ r < imageBlockSize,
      (e.start + k) * imageBlockSize + r < size →
        byteAt block r = content ((e.start + k) * imageBlockSize + r)

/-- An empty file has no extents. -/
theorem Stores.empty (m : Medium) (o : ImageOptions) (content : Nat → UInt8) :
    m.Stores o [] 0 content :=
  ⟨.nil _ _, fun _ hpos => absurd hpos (Nat.not_lt_zero _), by simp⟩

theorem Stores.run {size : Nat} {content : Nat → UInt8} (h : m.Stores o extents size content) :
    ∀ e ∈ extents, 0 < e.count ∧ ∃ ag agBlock, o.Run e.address e.count ag agBlock :=
  fun e he => h.placing.run e (List.mem_reverse.mpr he)

theorem Stores.inOrder {size : Nat} {content : Nat → UInt8} (h : m.Stores o extents size content)
    (ho : o.Bounded) : InOrder extents := by
  have horder := h.placing.inOrder ho (Nat.le_refl _)
  rwa [List.reverse_reverse] at horder

/-- Bytes at the front of a run are a file of one extent. -/
theorem Shows.stores {size : Nat} {content : Nat → UInt8} (h : m.Shows o address count data)
    (hblock : m.device.blockSize = imageBlockSize) (hpos : 0 < count)
    (hcount : count ≤ 2 ^ startBits) (hsize : size ≤ count * imageBlockSize)
    (hfront : ∀ i < size, byteAt data i = content i) :
    m.Stores o [{ start := 0, address, count, unwritten := false }] size content where
  placing := by
    obtain ⟨ag, agBlock, hrun, -⟩ := h
    have hadd := (ImageOptions.Placing.nil o 0).addRun (Nat.le_refl 0) hrun hpos
    rw [Nat.zero_add] at hadd
    exact hadd.mono hcount
  zero pos hin hzero := by
    have hlt : pos / imageBlockSize < count :=
      (Nat.div_lt_iff_lt_mul (by decide)).mpr (Nat.lt_of_lt_of_le hin hsize)
    have hholds := hzero _ List.mem_cons_self ⟨Nat.zero_le _, by rwa [Nat.zero_add]⟩
    cases hholds
  written e he _ k hk := by
    obtain rfl := List.mem_singleton.mp he
    refine ⟨_, h.block hblock hk, fun r hr hin => ?_⟩
    dsimp only at hin ⊢
    rw [Nat.zero_add] at hin ⊢
    rw [byteAt_window hr, hfront _ hin]

end Medium

namespace Volume

variable {v : Volume} {b : Builder} {spare : Nat → Prop} {inode : Inode} {extents : List Extent}
  {size pos : Nat} {content : Nat → UInt8} {x : UInt8}

theorem readable_of_stores (hk : v.toMedium.Keeps spare b) (hf : v.ForkHolds inode extents)
    (h : v.toMedium.Stores b.options extents size content) : v.Readable inode extents where
  sized := hk.sized
  blockSize := hk.measures.blockSize.trans hk.blockSize.symm
  nonempty := by
    rw [hk.blockSize]
    decide
  fork := hf
  placed e he := by
    obtain ⟨hc, ag, agBlock, hrun⟩ := h.run e he
    exact ⟨ag, agBlock, hk.placed hrun hc⟩

theorem FileByte.eq_content (hx : v.FileByte inode extents pos x)
    (hk : v.toMedium.Keeps spare b) (hf : v.ForkHolds inode extents)
    (h : v.toMedium.Stores b.options extents size content) (hpos : pos < size) :
    x = content pos := by
  have hbs : v.device.blockSize = imageBlockSize := hk.blockSize
  by_cases hzero : ∀ e ∈ extents, e.Holds (pos / imageBlockSize) → e.unwritten = true
  · rw [h.zero pos hpos hzero]
    by_cases hn : ∀ e ∈ extents, ¬ e.Holds (pos / v.device.blockSize)
    · exact (hx.hole hn).2
    · push Not at hn
      obtain ⟨e, he, hh⟩ := hn
      exact hx.unwritten e he hh (hzero e he (hbs ▸ hh))
  · push Not at hzero
    obtain ⟨e, he, hh, hu⟩ := hzero
    rw [ne_eq, Bool.not_eq_true] at hu
    obtain ⟨hc, ag, agBlock, hrun⟩ := h.run e he
    obtain ⟨hstart, hstop⟩ := id hh
    obtain ⟨k, hblock⟩ := Nat.exists_eq_add_of_le hstart
    have hkc : k < e.count := by omega
    obtain ⟨block, hshows, hbytes⟩ := h.written e he hu k hkc
    obtain ⟨mapping, hmap, rfl⟩ := hx.written e he (hbs.symm ▸ hh) hu
    rw [hbs, hf.mapBlock_eq hk.sized he (hk.placed hrun hc) hh] at hmap
    cases hmap
    have hsplit : (e.start + k) * imageBlockSize + pos % imageBlockSize = pos := by
      rw [← hblock, Nat.mul_comm, Nat.div_add_mod]
    have hmod : pos % imageBlockSize < imageBlockSize := Nat.mod_lt _ (by decide)
    have hbyte := hbytes _ hmod (by rwa [hsplit])
    rw [hsplit] at hbyte
    rw [← hbyte, ← hshows.block_eq hk.measures hrun hkc, Device.block, Device.span, hk.blockSize,
      byteAt_window (by rwa [Nat.one_mul])]
    dsimp only
    rw [hk.measures.groupBlock, hblock, Nat.add_sub_cancel_left]

theorem readData_of_stores (hk : v.toMedium.Keeps spare b) (hf : v.ForkHolds inode extents)
    (h : v.toMedium.Stores b.options extents size content) (hdir : inode.isDirectory = false)
    (hsize : inode.size.toNat = size) (offset len : Nat) :
    ∃ piece, v.readData inode offset len = .ok piece ∧
      piece.size = readCount size offset len ∧
      ∀ i < piece.size, byteAt piece i = content (offset + i) := by
  obtain ⟨piece, hread, hcount, hbytes⟩ :=
    (readable_of_stores hk hf h).readData_eq hdir offset len
  rw [hsize] at hcount
  refine ⟨piece, hread, hcount, fun i hi => (hbytes i hi).eq_content hk hf h ?_⟩
  rw [hcount, readCount] at hi
  split at hi
  · omega
  · omega

end Volume

/-! ## Patterned blocks -/

/-- What was asked for where the extent was given room. -/
def Extent.asked (e : Extent) : ExtentDraft := ⟨e.start, e.count, e.unwritten⟩

/-- Byte `pos` of a patterned file: the pattern of its block where a written extent holds that, and
zero elsewhere. -/
def patternedByte (drafts : List ExtentDraft) (pos : Nat) : UInt8 :=
  if ∃ d ∈ drafts, d.unwritten = false ∧ d.start ≤ pos / imageBlockSize ∧
      pos / imageBlockSize < d.start + d.count then
    blockPattern (pos / imageBlockSize)
  else 0

/-- The blocks of the extent are a run, each filled with its pattern. -/
structure Medium.Patterned (m : Medium) (o : ImageOptions) (e : Extent) : Prop where
  nonempty : 0 < e.count
  run : ∃ ag agBlock, o.Run e.address e.count ag agBlock
  filled : ∀ k < e.count, m.Shows o (e.address + k) 1
    (filled imageBlockSize (blockPattern (e.start + k)))

theorem Medium.stores_patterned {m : Medium} {o : ImageOptions} {extents : List Extent}
    (hp : ∀ e ∈ extents, m.Patterned o e)
    (horder : extents.Pairwise fun a c => a.start + a.count ≤ c.start)
    (hends : ∀ e ∈ extents, e.start + e.count ≤ 2 ^ startBits) (size : Nat) :
    m.Stores o extents size (patternedByte (extents.map Extent.asked)) where
  placing := by
    refine ⟨fun e he => ?_, fun e he => hends e (List.mem_reverse.mp he),
      List.pairwise_reverse.mpr horder⟩
    have hpattern := hp e (List.mem_reverse.mp he)
    exact ⟨hpattern.nonempty, hpattern.run⟩
  zero pos _ hzero := by
    apply if_neg
    rintro ⟨d, hd, hu, hstart, hstop⟩
    obtain ⟨e, he, rfl⟩ := List.mem_map.mp hd
    exact Bool.false_ne_true (hu.symm.trans (hzero e he ⟨hstart, hstop⟩))
  written e he hu k hk := by
    refine ⟨_, (hp e he).filled k hk, fun r hr _ => ?_⟩
    have hblock : ((e.start + k) * imageBlockSize + r) / imageBlockSize = e.start + k :=
      (digits_eq _ hr).1
    rw [byteAt_filled _ hr, patternedByte, hblock, if_pos]
    exact ⟨e.asked, List.mem_map_of_mem he, hu, Nat.le_add_right _ _, Nat.add_lt_add_left hk _⟩

namespace BuildM

open Builder

variable {m : Medium} {b b' : Builder} {spare : Nat → Prop} {extents : List Extent} {u : Unit}

theorem showsFront_of_gives {address count ag agBlock : Nat} {data : ByteArray} (hb : b.Sound)
    (h : Gives (writeBlocks address data) b u b') (hk : m.Keeps spare b')
    (hrun : b.options.Run address count ag agBlock) (hc : 0 < count)
    (hsize : data.size ≤ count * imageBlockSize)
    (hown : ∀ {i}, b.options.InBlocks address count i → b.Owns i ∧ ¬ spare i) :
    ∃ whole, m.Shows b.options address count whole ∧
      ∀ i < data.size, byteAt whole i = byteAt data i := by
  obtain rfl := gives_writeBlocks.mp h
  have hstop := hrun.bytes_le hc
  rw [← hb.size] at hstop
  have hin : b.options.blockOffset address + data.size ≤ b.image.size := by omega
  refine ⟨window (overwrite b.image (b.options.blockOffset address) data)
    (b.options.blockOffset address) (count * imageBlockSize), ?_, fun i hi => ?_⟩
  · refine hk.shows hrun hc ?_ hown fun i hi => ?_
    · apply size_window_of_le
      rwa [size_overwrite hin]
    · rw [size_window] at hi
      rw [byteAt_window (by omega)]
  · rw [byteAt_window (by omega), byteAt_overwrite hin,
      if_pos ⟨Nat.le_add_right _ _, Nat.add_lt_add_left hi _⟩, Nat.add_sub_cancel_left]

theorem plainBlocks_spec {address count : Nat} {data : ByteArray} {mid : Builder} (hb : b.Sound)
    (htake : Gives (allocate count) b address mid)
    (hwrite : Gives (writeBlocks address data) mid u b') (hpos : 0 < count)
    (hcount : count ≤ 2 ^ startBits) (hsize : data.size ≤ count * imageBlockSize) :
    b'.Sound ∧ b.Grows (fun _ => False) b' ∧
      ∀ {m : Medium} {spare : Nat → Prop}, m.Keeps spare b' → (∀ {i}, spare i → b.Owns i) →
        m.Stores b.options [{ start := 0, address, count, unwritten := false }] data.size
          (byteAt data) := by
  have hgained := gained_of_gives htake hb
  obtain ⟨ag, agBlock, hrun⟩ := hgained.run hpos
  rw [← hgained.options] at hrun
  have hframe : Frames (fun i => False ∨ b.options.InBlocks address count i)
      (writeBlocks address data) mid := by
    refine frames_writeBlocks hrun hpos hsize fun hi => Or.inr ?_
    rwa [hgained.options] at hi
  obtain ⟨hsound, hgrows⟩ := hframe.of_gives hgained.sound hwrite
  refine ⟨hsound, (hgained.grows _).absorb hgrows hgained.free hgained.owned, fun hk hs => ?_⟩
  obtain ⟨whole, hshows, hfront⟩ := showsFront_of_gives hgained.sound hwrite hk hrun hpos hsize
    fun hi => by
      rw [hgained.options] at hi
      exact ⟨hgained.owned hi, fun hspare => hgained.free hi (hs hspare)⟩
  rw [hgained.options] at hshows
  exact hshows.stores hk.blockSize hpos hcount hsize hfront

theorem fillPattern_spec {ag : Nat} (count : Nat) : ∀ {address logical agBlock : Nat}
    {b : Builder}, b.Sound → Gives (fillPattern address logical count) b u b' →
      m.Keeps spare b' → b.options.Run address count ag agBlock →
      (∀ {i}, b.options.InBlocks address count i → b.Owns i ∧ ¬ spare i) →
      ∀ k < count, m.Shows b.options (address + k) 1
        (filled imageBlockSize (blockPattern (logical + k))) := by
  induction count with
  | zero =>
    intro address logical agBlock b _ _ _ _ _ k hk
    exact absurd hk (Nat.not_lt_zero k)
  | succ count ih =>
    intro address logical agBlock b hb h hk hrun hown
    rw [fillPattern] at h
    obtain ⟨_, mid, hwrite, h⟩ := gives_bind.mp h
    have hfirst : b.options.Run address 1 ag agBlock := hrun.part (k := 0) (by omega)
    have hpattern : (filled imageBlockSize (blockPattern logical)).size = 1 * imageBlockSize := by
      rw [size_filled, Nat.one_mul]
    have hframe : Frames (b.options.InBlocks address 1)
        (writeBlocks address (filled imageBlockSize (blockPattern logical))) b :=
      frames_writeBlocks hfirst Nat.one_pos (Nat.le_of_eq hpattern) id
    obtain ⟨hmid, hgrows⟩ := hframe.of_gives hb hwrite
    have hoptions := hgrows.options
    have hrest : mid.options.Run (address + 1) count ag (agBlock + 1) := by
      rw [hoptions]
      exact hrun.part (by omega)
    have hownRest {i : Nat} (hi : b.options.InBlocks (address + 1) count i) :
        b.Owns i ∧ ¬ spare i := hown (hrun.inBlocks_part (by omega) hi)
    have hframeRest : Frames (b.options.InBlocks (address + 1) count)
        (fillPattern (address + 1) (logical + 1) count) mid := by
      refine frames_fillPattern count hrest fun hi => ?_
      rwa [hoptions] at hi
    have hkMid := hk.back (hframeRest.of_gives hmid h).2
    have hshows := shows_of_gives hb hwrite hkMid hfirst Nat.one_pos hpattern fun hi => by
      have hin := hrun.inBlocks_part (k := 0) (n := 1) (by omega) hi
      exact ⟨(hown hin).1, not_or.mpr ⟨(hown hin).2, hrun.first_apart hi⟩⟩
    have hlast := ih hmid h hk hrest fun hi => by
      rw [hoptions] at hi
      exact ⟨hgrows.owns (hownRest hi).1, (hownRest hi).2⟩
    rw [hoptions] at hlast
    intro k hlt
    cases k with
    | zero => exact hshows
    | succ k =>
      have hblock := hlast k (by omega)
      rwa [Nat.add_right_comm, Nat.add_right_comm logical] at hblock

theorem patternedExtents_spec : ∀ {drafts : List ExtentDraft} {prevEnd : Option Nat}
    {extents : List Extent} {b : Builder}, b.Sound →
      Gives (patternedExtents prevEnd drafts) b extents b' → m.Keeps spare b' →
      (∀ {i}, spare i → b.Owns i) →
      extents.map Extent.asked = drafts ∧ (∀ e ∈ extents, m.Patterned b.options e) ∧
        extents.Pairwise (fun a c => a.start + a.count ≤ c.start) ∧
        ∀ last ∈ prevEnd, ∀ e ∈ extents, last ≤ e.start
  | [], prevEnd, extents, b, _, h, _, _ => by
      obtain ⟨rfl, -⟩ := gives_pure.mp h
      simp
  | d :: rest, prevEnd, extents, b, hb, h, hk, hs => by
      rw [patternedExtents, gives_guard, gives_guard] at h
      obtain ⟨hcount, hbehind, h⟩ := h
      obtain ⟨address, mid, htake, h⟩ := gives_bind.mp h
      obtain ⟨u, left, hfill, h⟩ := gives_bind.mp h
      obtain ⟨others, _, hrest, h⟩ := gives_bind.mp h
      obtain ⟨rfl, rfl⟩ := gives_pure.mp h
      have hpos : 0 < d.count := Nat.pos_of_ne_zero hcount
      have hgained := gained_of_gives htake hb
      obtain ⟨ag, agBlock, hrun⟩ := hgained.run hpos
      have hrunMid := hrun
      rw [← hgained.options] at hrunMid
      have hframe : Frames (fun i => False ∨ b.options.InBlocks address d.count i)
          (fillPattern address d.start d.count) mid := by
        refine frames_fillPattern _ hrunMid fun hi => Or.inr ?_
        rwa [hgained.options] at hi
      obtain ⟨hleft, hgrowsFill⟩ := hframe.of_gives hgained.sound hfill
      have hgrows := (hgained.grows (fun _ => False)).absorb hgrowsFill hgained.free hgained.owned
      have hkLeft := hk.before ((frames_patternedExtents).of_gives hleft hrest).2
      have hfilled := fillPattern_spec d.count hgained.sound hfill hkLeft hrunMid fun hi => by
        rw [hgained.options] at hi
        exact ⟨hgained.owned hi, fun hspare => hgained.free hi (hs hspare)⟩
      rw [hgained.options] at hfilled
      obtain ⟨hsame, hpatterned, horder, hafter⟩ :=
        patternedExtents_spec hleft hrest hk fun hi => hgrows.owns (hs hi)
      rw [hgrows.options] at hpatterned
      have hfirst : ∀ e ∈ others, d.start + d.count ≤ e.start := hafter _ rfl
      refine ⟨?_, ?_, List.pairwise_cons.mpr ⟨hfirst, horder⟩, ?_⟩
      · rw [List.map_cons, hsame]
        rfl
      · intro e he
        rcases List.mem_cons.mp he with rfl | he
        · exact ⟨hpos, ⟨ag, agBlock, hrun⟩, hfilled⟩
        · exact hpatterned e he
      · rintro last hlast e he
        rw [Option.mem_def] at hlast
        have hle : last ≤ d.start := by simpa [hlast] using hbehind
        rcases List.mem_cons.mp he with rfl | he
        · exact hle
        · have hmore := hfirst e he
          omega

end BuildM

end XfsVolume
