import XfsVolume.Proofs.Image.DirectorySteps
import XfsVolume.Proofs.Image.OnMedium

/-!
# Room for the blocks of a directory

Blocks are given room in the order of their file blocks, and the extents over them grow at their
end: a run of blocks is added as an extent of its own, or makes the last one longer where it
continues it in the file and on the volume. Either way the extents stay in order, and each block of
the file is mapped to the volume block that holds its data (`Medium.Maps`), with the room in one
piece or scattered.
-/

namespace XfsVolume

theorem addRun_cases (start address count : Nat) (extents : List Extent) :
    addRun start address count extents =
        { start, address, count, unwritten := false } :: extents ∨
      ∃ e rest, extents = e :: rest ∧ e.start + e.count = start ∧ e.address + e.count = address ∧
        addRun start address count extents = { e with count := e.count + count } :: rest := by
  cases extents with
  | nil => exact Or.inl rfl
  | cons e rest =>
    rw [addRun]
    split
    · rename_i hjoin
      rw [Bool.and_eq_true, decide_eq_true_eq, decide_eq_true_eq] at hjoin
      exact Or.inr ⟨e, rest, rfl, hjoin.1, hjoin.2, rfl⟩
    · exact Or.inl rfl

/-- Extents over blocks that were handed out, the last one first; all end at or before `stop`. -/
structure ImageOptions.Placing (o : ImageOptions) (extents : List Extent) (stop : Nat) : Prop where
  run : ∀ e ∈ extents, 0 < e.count ∧ ∃ ag agBlock, o.Run e.address e.count ag agBlock
  before : ∀ e ∈ extents, e.start + e.count ≤ stop
  order : extents.Pairwise fun a c => c.start + c.count ≤ a.start

/-- One of the extents holds file block `fb`, in a volume block that holds `data`. -/
def Medium.Maps (m : Medium) (o : ImageOptions) (extents : List Extent) (fb : Nat)
    (data : ByteArray) : Prop :=
  ∃ e ∈ extents, e.Holds fb ∧ ∃ ag agBlock, o.Run e.address e.count ag agBlock ∧
    m.device.block (o.volumeBlock ag agBlock + (fb - e.start)) = data

namespace ImageOptions

variable {o : ImageOptions} {extents : List Extent} {stop : Nat}

theorem Placing.nil (o : ImageOptions) (stop : Nat) : o.Placing [] stop :=
  ⟨by simp, by simp, List.Pairwise.nil⟩

theorem Placing.mono {stop' : Nat} (h : o.Placing extents stop) (hle : stop ≤ stop') :
    o.Placing extents stop' :=
  ⟨h.run, fun e he => Nat.le_trans (h.before e he) hle, h.order⟩

theorem Placing.addRun {start address count ag agBlock : Nat} (h : o.Placing extents stop)
    (hs : stop ≤ start) (hrun : o.Run address count ag agBlock) (hc : 0 < count) :
    o.Placing (addRun start address count extents) (start + count) := by
  rcases addRun_cases start address count extents with heq | ⟨e, rest, rfl, rfl, rfl, heq⟩
  · rw [heq]
    refine ⟨?_, ?_, List.pairwise_cons.mpr ⟨fun e he => ?_, h.order⟩⟩
    · intro e he
      rcases List.mem_cons.mp he with rfl | he
      · exact ⟨hc, ag, agBlock, hrun⟩
      · exact h.run e he
    · intro e he
      rcases List.mem_cons.mp he with rfl | he
      · exact Nat.le_refl _
      · exact Nat.le_trans (h.before e he) (Nat.le_add_right_of_le hs)
    · exact Nat.le_trans (h.before e he) hs
  · rw [heq]
    obtain ⟨hpos, ag', agBlock', hlast⟩ := h.run e List.mem_cons_self
    obtain ⟨hfirst, hrest⟩ := List.pairwise_cons.mp h.order
    refine ⟨?_, ?_, List.pairwise_cons.mpr ⟨hfirst, hrest⟩⟩
    · intro x hx
      rcases List.mem_cons.mp hx with rfl | hx
      · exact ⟨Nat.add_pos_left hpos _, ag', agBlock', (hlast.join hrun hc).1⟩
      · exact h.run x (List.mem_cons_of_mem _ hx)
    · intro x hx
      rcases List.mem_cons.mp hx with rfl | hx
      · exact Nat.le_of_eq (Nat.add_assoc _ _ _).symm
      · have hbefore := h.before x (List.mem_cons_of_mem _ hx)
        omega

/-- Extents that end within the bits of a file block are in order. -/
theorem Placing.inOrder (h : o.Placing extents stop) (ho : o.Bounded)
    (hstop : stop ≤ 2 ^ startBits) : InOrder extents.reverse := by
  refine ⟨?_, ?_, ?_⟩
  · intro e he
    rw [List.mem_reverse] at he
    obtain ⟨hpos, ag, agBlock, hrun⟩ := h.run e he
    have hbefore := h.before e he
    have haddress := ho.inMemory.address_lt hrun hpos
    have hroom := hrun.room
    have hblocks := ho.agBlocksLe
    refine ⟨by omega, haddress, ?_⟩
    rw [countBits]
    omega
  · intro e he
    exact (h.run e (List.mem_reverse.mp he)).1
  · exact List.pairwise_reverse.mpr h.order

/-- Each extent holds a file block, so that there are no more of them than file blocks. -/
theorem Placing.length_le : ∀ {extents : List Extent} {stop : Nat}, o.Placing extents stop →
    extents.length ≤ stop
  | [], _, _ => Nat.zero_le _
  | e :: rest, stop, h => by
      obtain ⟨hpos, -⟩ := h.run e List.mem_cons_self
      have hbefore := h.before e List.mem_cons_self
      obtain ⟨hfirst, hrest⟩ := List.pairwise_cons.mp h.order
      have hrec : rest.length ≤ e.start := Placing.length_le
        ⟨fun x hx => h.run x (List.mem_cons_of_mem _ hx), hfirst, hrest⟩
      rw [List.length_cons]
      omega

end ImageOptions

namespace Medium

variable {m : Medium} {o : ImageOptions} {extents : List Extent} {stop : Nat}

theorem Maps.addRun {start address count ag agBlock fb : Nat} {piece : ByteArray}
    (h : m.Maps o extents fb piece) (hrun : o.Run address count ag agBlock) (hc : 0 < count) :
    m.Maps o (addRun start address count extents) fb piece := by
  obtain ⟨e, he, hh, ag', agBlock', hrun', hpiece⟩ := h
  rcases addRun_cases start address count extents with heq | ⟨last, rest, rfl, rfl, rfl, heq⟩
  · rw [heq]
    exact ⟨e, List.mem_cons_of_mem _ he, hh, ag', agBlock', hrun', hpiece⟩
  · rw [heq]
    rcases List.mem_cons.mp he with rfl | he
    · have hlonger : fb < e.start + (e.count + count) := Nat.lt_of_lt_of_le hh.2 (by omega)
      exact ⟨_, List.mem_cons_self, ⟨hh.1, hlonger⟩, ag', agBlock', (hrun'.join hrun hc).1, hpiece⟩
    · exact ⟨e, List.mem_cons_of_mem _ he, hh, ag', agBlock', hrun', hpiece⟩

/-- The blocks of a run that is added are mapped to what they hold. -/
theorem Shows.maps {start address count : Nat} {data : ByteArray}
    (h : m.Shows o address count data) (hblock : m.device.blockSize = imageBlockSize)
    (hp : o.Placing extents stop) {k : Nat} (hk : k < count) :
    m.Maps o (XfsVolume.addRun start address count extents) (start + k)
      (window data (k * imageBlockSize) imageBlockSize) := by
  obtain ⟨ag, agBlock, hrun, rfl⟩ := h
  rw [← block_of_span hblock hk]
  rcases addRun_cases start address count extents with heq | ⟨e, rest, rfl, rfl, rfl, heq⟩
  · rw [heq]
    refine ⟨_, List.mem_cons_self, ⟨Nat.le_add_right _ _, Nat.add_lt_add_left hk _⟩, ag, agBlock,
      hrun, ?_⟩
    rw [Nat.add_sub_cancel_left]
  · rw [heq]
    obtain ⟨-, ag', agBlock', hlast⟩ := hp.run e List.mem_cons_self
    obtain ⟨hjoined, rfl, rfl⟩ := hlast.join hrun (Nat.zero_lt_of_lt hk)
    have hplace : e.start + e.count + k - e.start = e.count + k := by omega
    refine ⟨_, List.mem_cons_self, ⟨?_, ?_⟩, ag, agBlock', hjoined, ?_⟩
    · dsimp only
      omega
    · dsimp only
      omega
    · dsimp only
      rw [hplace, ImageOptions.volumeBlock_add, Nat.add_assoc]

/-- What placing `count` blocks from file block `start` on makes of extents: they stay in order, go
on mapping what they mapped, and map each new block to its piece. -/
structure PlacedRun (m : Medium) (o : ImageOptions) (extents : List Extent) (start count : Nat)
    (piece : Nat → ByteArray) (result : List Extent) : Prop where
  placing : o.Placing result (start + count)
  kept : ∀ {fb data}, m.Maps o extents fb data → m.Maps o result fb data
  maps : ∀ {j}, j < count → m.Maps o result (start + j) (piece j)

theorem PlacedRun.empty {start : Nat} (hp : o.Placing extents stop) (hs : stop ≤ start)
    (piece : Nat → ByteArray) : m.PlacedRun o extents start 0 piece extents :=
  ⟨hp.mono hs, id, fun hj => absurd hj (Nat.not_lt_zero _)⟩

theorem PlacedRun.congr {start count : Nat} {piece piece' : Nat → ByteArray}
    {result : List Extent} (h : m.PlacedRun o extents start count piece result)
    (hsame : ∀ j < count, piece j = piece' j) :
    m.PlacedRun o extents start count piece' result where
  placing := h.placing
  kept := h.kept
  maps {j} hj := by
    rw [← hsame j hj]
    exact h.maps hj

theorem PlacedRun.trans {start count count' : Nat} {piece : Nat → ByteArray}
    {mid result : List Extent} (h : m.PlacedRun o extents start count piece mid)
    (h' : m.PlacedRun o mid (start + count) count' (fun j => piece (count + j)) result) :
    m.PlacedRun o extents start (count + count') piece result where
  placing := by
    rw [← Nat.add_assoc]
    exact h'.placing
  kept hmaps := h'.kept (h.kept hmaps)
  maps {j} hj := by
    by_cases hfirst : j < count
    · exact h'.kept (h.maps hfirst)
    · have hlast := h'.maps (j := j - count) (by omega)
      rwa [Nat.add_assoc, Nat.add_sub_cancel' (Nat.not_lt.mp hfirst)] at hlast

theorem Shows.placedRun {start address count : Nat} {data : ByteArray}
    (h : m.Shows o address count data) (hblock : m.device.blockSize = imageBlockSize)
    (hc : 0 < count) (hp : o.Placing extents stop) (hs : stop ≤ start) :
    m.PlacedRun o extents start count (fun j => window data (j * imageBlockSize) imageBlockSize)
      (XfsVolume.addRun start address count extents) := by
  obtain ⟨ag, agBlock, hrun, -⟩ := id h
  exact ⟨hp.addRun hs hrun hc, fun hmaps => hmaps.addRun hrun hc, fun hj => h.maps hblock hp hj⟩

end Medium

namespace BuildM

open Builder

variable {m : Medium} {b b' : Builder} {spare : Nat → Prop} {extents result : List Extent}
  {stop : Nat}

/-! ## Placing -/

theorem scatterBlock_spec {fileBlock : Nat} {data : ByteArray} (count : Nat) : ∀ {k stop : Nat}
    {extents : List Extent} {b : Builder}, b.Sound →
      Gives (scatterBlock fileBlock data count k extents) b result b' → m.Keeps spare b' →
      (∀ {i}, spare i → b.Owns i) → (k + count) * imageBlockSize ≤ data.size →
      b.options.Placing extents stop → stop ≤ fileBlock + k →
      m.PlacedRun b.options extents (fileBlock + k) count
          (fun j => window data ((k + j) * imageBlockSize) imageBlockSize) result ∧
        b.taken + count ≤ b'.taken := by
  induction count with
  | zero =>
    intro k stop extents b _ h _ _ _ hp hstop
    obtain ⟨rfl, rfl⟩ := gives_pure.mp h
    exact ⟨.empty hp hstop _, Nat.le_refl _⟩
  | succ count ih =>
    intro k stop extents b hb h hk hs hsize hp hstop
    rw [scatterBlock] at h
    obtain ⟨address, mid, htake, h⟩ := gives_bind.mp h
    obtain ⟨u, written, hwrite, h⟩ := gives_bind.mp h
    obtain ⟨gap, left, hgap, h⟩ := gives_bind.mp h
    have hpiece : (window data (k * imageBlockSize) imageBlockSize).size = 1 * imageBlockSize := by
      rw [size_window_of_le, Nat.one_mul]
      rw [imageBlockSize] at hsize ⊢
      omega
    have hstored := stored_of_gives hb Nat.one_pos htake hwrite hpiece
    have hgained := gained_of_gives hgap hstored.sound
    have hoptions : left.options = b.options := hgained.options.trans hstored.options
    have hgrows := hstored.grows.trans (hgained.grows _)
    have hframe : Frames (fun _ => False) (scatterBlock fileBlock data count (k + 1)
        (addRun (fileBlock + k) address 1 extents)) left := frames_scatterBlock
    have hrest := (hframe.of_gives hgained.sound h).2
    have hshows := hstored.shows (hk.before ((hgained.grows _).trans hrest)) hs
    have hfirst := hshows.placedRun hk.blockSize Nat.one_pos hp hstop
    have hplacing := hfirst.placing
    rw [← hoptions] at hplacing
    obtain ⟨hlast, htaken⟩ := ih hgained.sound h hk (fun hi => hgrows.owns (hs hi))
      (by rwa [Nat.add_right_comm]) hplacing (Nat.le_refl _)
    rw [hoptions] at hlast
    rw [hgained.taken, hstored.taken] at htaken
    refine ⟨?_, by omega⟩
    rw [Nat.add_comm count 1]
    refine (hfirst.congr fun j hj => ?_).trans (hlast.congr fun j _ => ?_)
    · obtain rfl := Nat.lt_one_iff.mp hj
      rw [Nat.zero_mul, Nat.add_zero, window_window (by rw [Nat.zero_add]), Nat.add_zero]
    · rw [← Nat.add_assoc]

theorem placeBlock_spec {block : Nat × ByteArray} (hb : b.Sound)
    (h : Gives (placeBlock extents block) b result b') (hk : m.Keeps spare b')
    (hs : ∀ {i}, spare i → b.Owns i) (hsize : block.2.size = b.options.dirBlockSize)
    (hp : b.options.Placing extents stop) (hstop : stop ≤ block.1) :
    m.PlacedRun b.options extents block.1 b.options.blocksPerDirBlock
        (fun j => window block.2 (j * imageBlockSize) imageBlockSize) result ∧
      b.taken + b.options.blocksPerDirBlock ≤ b'.taken := by
  have hcount := b.options.blocksPerDirBlock_pos
  rw [b.options.dirBlockSize_eq] at hsize
  rw [placeBlock, gives_options_bind, gives_ite] at h
  split at h
  · have hall : (0 + b.options.blocksPerDirBlock) * imageBlockSize ≤ block.2.size := by
      rw [Nat.zero_add]
      exact Nat.le_of_eq hsize.symm
    obtain ⟨hplaced, htaken⟩ := scatterBlock_spec _ hb h hk hs hall hp hstop
    refine ⟨hplaced.congr fun j _ => ?_, htaken⟩
    rw [Nat.zero_add]
  · obtain ⟨address, mid, htake, h⟩ := gives_bind.mp h
    obtain ⟨u, written, hwrite, h⟩ := gives_bind.mp h
    obtain ⟨rfl, rfl⟩ := gives_pure.mp h
    have hstored := stored_of_gives hb hcount htake hwrite hsize
    exact ⟨(hstored.shows hk hs).placedRun hk.blockSize hcount hp hstop,
      Nat.le_of_eq hstored.taken.symm⟩

theorem foldlM_placeBlock_spec {last : Nat} {o : ImageOptions} : ∀ {blocks : PlacedBlocks}
    {stop : Nat} {extents : List Extent} {b : Builder}, b.Sound → b.options = o →
      Gives (blocks.foldlM placeBlock extents) b result b' → m.Keeps spare b' →
      (∀ {i}, spare i → b.Owns i) → (∀ x ∈ blocks, x.2.size = o.dirBlockSize) →
      o.Placing extents stop → stop ≤ last →
      blocks.Pairwise (fun x y => x.1 + o.blocksPerDirBlock ≤ y.1) →
      (∀ x ∈ blocks, stop ≤ x.1 ∧ x.1 + o.blocksPerDirBlock ≤ last) →
      o.Placing result last ∧ (∀ {fb data}, m.Maps o extents fb data → m.Maps o result fb data) ∧
        (∀ x ∈ blocks, ∀ j < o.blocksPerDirBlock, m.Maps o result (x.1 + j)
          (window x.2 (j * imageBlockSize) imageBlockSize)) ∧
        b.taken + blocks.length * o.blocksPerDirBlock ≤ b'.taken := by
  intro blocks
  induction blocks with
  | nil =>
    intro stop extents b _ _ h _ _ _ hp hstop _ _
    obtain ⟨rfl, rfl⟩ := gives_pure.mp h
    refine ⟨hp.mono hstop, id, by simp, ?_⟩
    rw [List.length_nil, Nat.zero_mul]
    exact Nat.le_refl _
  | cons block rest ih =>
    intro stop extents b hb ho h hk hs hsize hp _ hsorted hin
    rw [List.foldlM_cons] at h
    obtain ⟨grown, mid, hfirst, h⟩ := gives_bind.mp h
    obtain ⟨hnext, hsorted⟩ := List.pairwise_cons.mp hsorted
    have hblock : block.2.size = b.options.dirBlockSize := by
      rw [ho]
      exact hsize block List.mem_cons_self
    have hframe : Frames (fun _ => False) (placeBlock extents block) b := frames_placeBlock hblock
    obtain ⟨hmid, hgrows⟩ := hframe.of_gives hb hfirst
    have hrest : Frames (fun _ => False) (rest.foldlM placeBlock grown) mid := by
      refine frames_foldlM o (hgrows.options.trans ho) fun extents c hc x hx => ?_
      apply frames_placeBlock
      rw [hc]
      exact hsize x (List.mem_cons_of_mem _ hx)
    have hkMid := hk.before (hrest.of_gives hmid h).2
    rw [← ho] at hp
    obtain ⟨hplaced, htaken⟩ := placeBlock_spec hb hfirst hkMid hs hblock hp
      (hin block List.mem_cons_self).1
    rw [ho] at hplaced htaken
    obtain ⟨hplacing, hkept, hmaps, htakenRest⟩ := ih hmid (hgrows.options.trans ho) h hk
      (fun hi => hgrows.owns (hs hi)) (fun x hx => hsize x (List.mem_cons_of_mem _ hx))
      hplaced.placing (hin block List.mem_cons_self).2 hsorted
      fun x hx => ⟨hnext x hx, (hin x (List.mem_cons_of_mem _ hx)).2⟩
    refine ⟨hplacing, fun hold => hkept (hplaced.kept hold), ?_, ?_⟩
    · intro x hx j hj
      rcases List.mem_cons.mp hx with rfl | hx
      · exact hkept (hplaced.maps hj)
      · exact hmaps x hx j hj
    · rw [List.length_cons, Nat.add_mul, Nat.one_mul]
      omega

/-- Blocks that do not overlap stand one behind the other when they are sorted by where they
start. -/
theorem pairwise_mergeSort_of_apart {blocks : PlacedBlocks} {count : Nat} (hc : 0 < count)
    (hapart : blocks.Pairwise fun x y => x.1 + count ≤ y.1 ∨ y.1 + count ≤ x.1) :
    (blocks.mergeSort fun x y => decide (x.1 ≤ y.1)).Pairwise fun x y => x.1 + count ≤ y.1 := by
  have hle : (blocks.mergeSort fun x y => decide (x.1 ≤ y.1)).Pairwise
      fun x y => decide (x.1 ≤ y.1) = true := by
    apply List.pairwise_mergeSort
    · intro x y z hxy hyz
      rw [decide_eq_true_eq] at hxy hyz ⊢
      exact Nat.le_trans hxy hyz
    · intro x y
      rw [Bool.or_eq_true, decide_eq_true_eq, decide_eq_true_eq]
      exact Nat.le_total x.1 y.1
  have hperm := List.mergeSort_perm blocks fun x y => decide (x.1 ≤ y.1)
  have hsymm := (hperm.pairwise_iff fun {x y} hxy => hxy.symm).mpr hapart
  refine (hle.and hsymm).imp fun {x y} hxy => ?_
  have hxyLe := of_decide_eq_true hxy.1
  rcases hxy.2 with hbefore | hafter
  · exact hbefore
  · omega

theorem placeBlocks_spec {blocks : PlacedBlocks} {last : Nat} (hb : b.Sound)
    (h : Gives (placeBlocks blocks) b result b') (hk : m.Keeps spare b')
    (hs : ∀ {i}, spare i → b.Owns i) (hsize : ∀ x ∈ blocks, x.2.size = b.options.dirBlockSize)
    (hapart : blocks.Pairwise fun x y => x.1 + b.options.blocksPerDirBlock ≤ y.1 ∨
      y.1 + b.options.blocksPerDirBlock ≤ x.1)
    (hlast : ∀ x ∈ blocks, x.1 + b.options.blocksPerDirBlock ≤ last) :
    b.options.Placing result.reverse last ∧
      (∀ x ∈ blocks, ∀ j < b.options.blocksPerDirBlock, m.Maps b.options result (x.1 + j)
        (window x.2 (j * imageBlockSize) imageBlockSize)) ∧
      b.taken + blocks.length * b.options.blocksPerDirBlock ≤ b'.taken := by
  obtain ⟨grown, mid, hfold, h⟩ := gives_bind.mp h
  obtain ⟨rfl, rfl⟩ := gives_pure.mp h
  have hcount := b.options.blocksPerDirBlock_pos
  have hperm := List.mergeSort_perm blocks fun x y => decide (x.1 ≤ y.1)
  have hsorted := pairwise_mergeSort_of_apart hcount hapart
  obtain ⟨hplacing, -, hmaps, htaken⟩ := foldlM_placeBlock_spec hb rfl hfold hk hs
    (fun x hx => hsize x (hperm.mem_iff.mp hx)) (ImageOptions.Placing.nil _ 0) (Nat.zero_le last)
    hsorted fun x hx => ⟨Nat.zero_le _, hlast x (hperm.mem_iff.mp hx)⟩
  rw [hperm.length_eq] at htaken
  refine ⟨?_, fun x hx j hj => ?_, htaken⟩
  · rw [List.reverse_reverse]
    exact hplacing
  · obtain ⟨e, he, hmap⟩ := hmaps x (hperm.mem_iff.mpr hx) j hj
    exact ⟨e, List.mem_reverse.mpr he, hmap⟩

end BuildM

end XfsVolume
