import XfsVolume.Proofs.Image.Frames
import XfsVolume.Proofs.Image.TreeNodes

/-!
# What callers of the builder can do

Every step that a caller can take writes only to room that it takes itself or that the caller was
given: a step that makes an inode answers with a slot that was free before it, and may write to
that one alone (`MakesInode`). So in a volume that is built by such steps, in any order and with any
of them failing, what was handed out is kept (`Builder.Reaches.grows`).
-/

namespace XfsVolume

namespace BuildM

open Builder

variable {α : Type} {b : Builder} {spare : Nat → Prop}

/-! ## Writing forks -/

theorem frames_writeNodes {owner level : Nat} {records : List α → List Field} (o : ImageOptions) :
    ∀ {l : List ((Nat × Nat × Nat) × List α)} {b : Builder},
      (∀ x ∈ l, Field.Laid o.nodeHeader imageBlockSize (records x.2)) →
      (∀ x ∈ l, ∃ ag agBlock, b.options.Run x.1.2.1 1 ag agBlock) →
      (∀ x ∈ l, ∀ {i}, b.options.InBlocks x.1.2.1 1 i → spare i) →
      Frames spare (forIn l PUnit.unit fun ((left, address, right), chunk) _ => do
        writeBlocks address (blockOf imageBlockSize
          (o.nodeFields owner address level chunk.length left right ++ records chunk))
        pure (ForInStep.yield PUnit.unit)) b
  | [], _, _, _, _ => frames_pure _
  | ((left, address, right), chunk) :: l, b, hlaid, hrun, hs => by
      obtain ⟨ag, agBlock, hfirst⟩ := hrun _ List.mem_cons_self
      have hsize : (o.node owner address level chunk.length left right (records chunk)).size =
          imageBlockSize := ImageOptions.size_node (hlaid _ List.mem_cons_self)
      rw [List.forIn_cons, bind_assoc]
      refine frames_bind (frames_writeBlocks hfirst Nat.one_pos
        (by rw [Nat.one_mul]; exact Nat.le_of_eq hsize) (hs _ List.mem_cons_self))
        fun _ _ _ hoptions => ?_
      rw [pure_bind]
      apply frames_writeNodes o fun x hx => hlaid x (List.mem_cons_of_mem _ hx)
      · intro x hx
        rw [hoptions]
        exact hrun x (List.mem_cons_of_mem _ hx)
      · intro x hx i hi
        rw [hoptions] at hi
        exact hs x (List.mem_cons_of_mem _ hx) hi

theorem frames_writeLevel {owner level : Nat} {chunks : List (List α)} {key : α → Nat}
    {records : List α → List Field}
    (hlaid : ∀ chunk ∈ chunks, Field.Laid b.options.nodeHeader imageBlockSize (records chunk)) :
    Frames spare (writeLevel owner level chunks key records) b := by
  rw [writeLevel]
  refine frames_options_bind ?_
  refine frames_bind_taking (fun addresses i => ∃ a ∈ addresses, b.options.InBlocks a 1 i)
    (frames_mapM (fun _ _ => frames_allocate 1) chunks b) ?_ ?_
  · rintro addresses mid hb h i ⟨a, ha, hi⟩
    exact ((gainedAll_of_gives h hb).2.block a ha).2 hi
  · intro addresses mid hb h _ hoptions
    have hgained := (gainedAll_of_gives h hb).2
    refine frames_bind ?_ fun _ _ _ _ => frames_pure _
    apply frames_writeNodes
    · intro x hin
      exact hlaid x.2 (List.of_mem_zip hin).2
    · intro x hin
      rw [hoptions]
      exact (hgained.block _ (mem_neighbours (List.of_mem_zip hin).1)).1
    · intro x hin i hi
      rw [hoptions] at hi
      exact Or.inr ⟨_, mem_neighbours (List.of_mem_zip hin).1, hi⟩

theorem frames_writeLevels {owner fanout limit : Nat} : ∀ {fuel height : Nat}
    {links : List TreeLink} {used : Nat} {b : Builder}, fanout ≤ b.options.nodeRoom →
      Frames spare (writeLevels owner fanout limit fuel height links used) b
  | 0, _, _, _, _, _ => frames_pure _
  | fuel + 1, height, links, used, b, hfanout => by
      rw [writeLevels]
      refine frames_ite (frames_pure _) (frames_options_bind ?_)
      refine frames_bind (frames_writeLevel fun chunk hchunk => ?_) fun _ _ _ hoptions => ?_
      · have hlen := (length_of_mem_chunksOf links chunk hchunk).2
        exact ImageOptions.laid_interiorFields (by omega)
      · exact frames_writeLevels (by rwa [hoptions])

theorem frames_writeTree (owner : Nat) (extents : List Extent) (shape : TreeShape) :
    Frames spare (writeTree owner extents shape) b := by
  rw [writeTree]
  refine frames_guard fun _ => frames_guard fun _ => frames_options_bind ?_
  refine frames_bind (frames_writeLevel fun chunk hchunk => ?_) fun _ _ _ hoptions => ?_
  · have hlen := (length_of_mem_chunksOf extents chunk hchunk).2
    exact ImageOptions.laid_leafFields (by omega)
  · refine frames_bind (frames_writeLevels ?_) fun _ _ _ _ => frames_pure _
    rw [hoptions]
    exact Nat.min_le_right _ _

theorem frames_writeFork (owner : Nat) (extents : List Extent) (shape : Option TreeShape) :
    Frames spare (writeFork owner extents shape) b := by
  rw [writeFork]
  exact frames_options_bind (frames_ite (frames_pure _) (frames_writeTree owner extents _))

/-! ## Making inodes -/

/-- A step that makes an inode takes the inode's slot, which was free before it, and keeps whatever
was handed out. -/
structure MakesInode (x : BuildM Nat) : Prop where
  frames : ∀ spare b, Frames spare x b
  takes : ∀ {b ino b'}, b.Sound → Gives x b ino b' → ∀ {i}, b.options.InSlot ino i →
    ¬ b.Owns i ∧ b'.Owns i

theorem makesInode_reserveIn (ag : Nat) : MakesInode (reserveIn ag) where
  frames _ _ := frames_reserveIn ag
  takes hb h _ hi := ⟨(gainedSlot_of_gives h hb).free hi, (gainedSlot_of_gives h hb).owned hi⟩

theorem makesInode_bind {f : Nat → BuildM Nat}
    (hf : ∀ ino spare b, (∀ {i}, b.options.InSlot ino i → spare i) → Frames spare (f ino) b)
    (hanswer : ∀ {ino b a b'}, Gives (f ino) b a b' → a = ino) :
    MakesInode (reserve >>= f) where
  frames spare b := by
    refine frames_reserveIn_bind fun hgained => ?_
    apply hf
    intro i hi
    rw [hgained.options] at hi
    exact Or.inr hi
  takes {b ino b'} hb h i hi := by
    obtain ⟨slot, mid, hreserve, hrest⟩ := gives_bind.mp h
    obtain rfl := hanswer hrest
    have hgained := gainedSlot_of_gives hreserve hb
    have hgrows := ((hf ino (mid.options.InSlot ino) mid id).of_gives hgained.sound hrest).2
    exact ⟨hgained.free hi, hgrows.owns (hgained.owned hi)⟩

theorem makesInode_guard {p : Prop} [Decidable p] {e : BuildFault} {x : BuildM Nat}
    (hx : ¬ p → MakesInode x) :
    MakesInode ((if p then throw e else pure () : BuildM Unit) >>= fun _ => x) := by
  by_cases hp : p
  · rw [if_pos hp]
    refine ⟨fun _ _ => frames_bind (frames_throw e) fun _ h => (gives_throw.mp h).elim, ?_⟩
    intro b ino b' _ h
    obtain ⟨_, _, h, -⟩ := gives_bind.mp h
    exact (gives_throw.mp h).elim
  · rw [if_neg hp, pure_bind]
    exact hx hp

theorem makesInode_options_bind {f : ImageOptions → BuildM Nat} (hf : ∀ o, MakesInode (f o)) :
    MakesInode (options >>= f) where
  frames spare b := frames_options_bind ((hf b.options).frames spare b)
  takes {b ino b'} hb h i hi := by
    obtain ⟨o, mid, ho, h⟩ := gives_bind.mp h
    obtain ⟨rfl, rfl⟩ := gives_options.mp ho
    exact (hf _).takes hb h hi

theorem makesInode_ite {p : Prop} [Decidable p] {x y : BuildM Nat} (hx : MakesInode x)
    (hy : MakesInode y) : MakesInode (if p then x else y) := by
  split
  · exact hx
  · exact hy

theorem makesInode_addInode (draft : InodeDraft) : MakesInode (addInode draft) := by
  rw [addInode]
  refine makesInode_bind (fun ino spare b hs => ?_) fun h => ?_
  · exact frames_bind (frames_writeInode draft hs) fun _ _ _ _ => frames_pure _
  · simp only [gives_bind, gives_pure] at h
    obtain ⟨-, -, -, rfl, -⟩ := h
    rfl

/-! ## Files -/

theorem frames_fillPattern {ag : Nat} (count : Nat) : ∀ {address logical agBlock : Nat}
    {b : Builder}, b.options.Run address count ag agBlock →
      (∀ {i}, b.options.InBlocks address count i → spare i) →
      Frames spare (fillPattern address logical count) b := by
  induction count with
  | zero =>
    intro address logical agBlock b _ _
    exact frames_pure _
  | succ count ih =>
    intro address logical agBlock b hrun hs
    have hfirst : b.options.Run address 1 ag agBlock := hrun.part (k := 0) (by omega)
    have hpattern : (filled imageBlockSize (blockPattern logical)).size ≤ 1 * imageBlockSize :=
      Nat.le_of_eq (by rw [size_filled, Nat.one_mul])
    rw [fillPattern]
    refine frames_bind (frames_writeBlocks hfirst Nat.one_pos hpattern fun hi =>
      hs (hrun.inBlocks_part (k := 0) (n := 1) (by omega) hi)) fun _ _ _ hoptions => ?_
    have hrest : b.options.Run (address + 1) count ag (agBlock + 1) := hrun.part (by omega)
    rw [← hoptions] at hrest
    refine ih hrest ?_
    · intro i hi
      rw [hoptions] at hi
      exact hs (hrun.inBlocks_part (by omega) hi)

theorem frames_patternedExtents : ∀ {drafts : List ExtentDraft} {prevEnd : Option Nat}
    {b : Builder} {spare : Nat → Prop}, Frames spare (patternedExtents prevEnd drafts) b
  | [], _, _, _ => frames_pure _
  | e :: rest, prevEnd, b, spare => by
      rw [patternedExtents]
      by_cases hcount : e.count = 0
      · rw [if_pos hcount]
        exact frames_bind (frames_throw _) fun _ h => (gives_throw.mp h).elim
      · rw [if_neg hcount]
        refine frames_guard fun _ => frames_allocate_bind fun {address mid} hgained => ?_
        obtain ⟨ag, agBlock, hrun⟩ := hgained.run (Nat.pos_of_ne_zero hcount)
        rw [← hgained.options] at hrun
        refine frames_bind (frames_fillPattern _ hrun fun hi => ?_) fun _ _ _ _ =>
          frames_bind frames_patternedExtents fun _ _ _ _ => frames_pure _
        rw [hgained.options] at hi
        exact Or.inr hi

theorem frames_writeFile {ino : Nat} {extents : List Extent} {shape : Option TreeShape}
    {draft : ForkDraft → InodeDraft} (hs : ∀ {i}, b.options.InSlot ino i → spare i) :
    Frames spare (do
      let fork ← writeFork ino extents shape
      writeInode ino (draft fork)
      pure ino) b := by
  refine frames_bind (frames_writeFork ino extents shape) fun _ _ _ hoptions => ?_
  refine frames_bind (frames_writeInode _ fun hi => ?_) fun _ _ _ _ => frames_pure _
  rw [hoptions] at hi
  exact hs hi

theorem eq_of_gives_writeFile {ino a : Nat} {extents : List Extent} {shape : Option TreeShape}
    {draft : ForkDraft → InodeDraft} {b' : Builder} (h : Gives (do
      let fork ← writeFork ino extents shape
      writeInode ino (draft fork)
      pure ino) b a b') : a = ino := by
  simp only [gives_bind, gives_pure] at h
  obtain ⟨-, -, -, -, -, -, rfl, -⟩ := h
  rfl

theorem makesInode_addFile (data : ByteArray) : MakesInode (addFile data) := by
  rw [addFile]
  refine makesInode_bind (fun ino spare b hs => ?_) fun h => ?_
  · refine frames_liftM_bind fun {count} hcount => ?_
    dsimp only
    rw [pure_bind]
    by_cases hzero : count = 0
    · rw [if_pos hzero]
      exact frames_writeFile hs
    rw [if_neg hzero]
    refine frames_allocate_bind fun {address mid} hgained => ?_
    obtain ⟨ag, agBlock, hrun⟩ := hgained.run (Nat.pos_of_ne_zero hzero)
    rw [← hgained.options] at hrun
    have hdata : data.size ≤ count * imageBlockSize := by
      obtain ⟨-, rfl⟩ := fitting_eq_ok.mp hcount
      rw [imageBlockSize]
      omega
    refine frames_bind (frames_writeBlocks hrun (Nat.pos_of_ne_zero hzero) hdata fun hi => ?_)
      fun _ _ _ hoptions => ?_
    · rw [hgained.options] at hi
      exact Or.inr hi
    · rw [pure_bind]
      refine frames_writeFile fun hi => ?_
      rw [hoptions, hgained.options] at hi
      exact Or.inl (hs hi)
  · obtain ⟨count, mid, -, h⟩ := gives_bind.mp h
    dsimp only at h
    rw [pure_bind] at h
    split at h
    · exact eq_of_gives_writeFile h
    · obtain ⟨address, _, -, h⟩ := gives_bind.mp h
      obtain ⟨_, _, -, h⟩ := gives_bind.mp h
      exact eq_of_gives_writeFile h

theorem makesInode_addPatterned (size : Nat) (drafts : List ExtentDraft)
    (shape : Option TreeShape) : MakesInode (addPatterned size drafts shape) := by
  rw [addPatterned]
  refine makesInode_bind (fun ino spare b hs => ?_) fun h => ?_
  · refine frames_bind frames_patternedExtents fun _ _ _ hextents => ?_
    refine frames_bind (frames_writeFork ino _ shape) fun _ _ _ hoptions => ?_
    refine frames_liftM_bind fun _ => ?_
    refine frames_bind (frames_writeInode _ fun hi => ?_) fun _ _ _ _ => frames_pure _
    rw [hoptions, hextents] at hi
    exact hs hi
  · simp only [gives_bind, gives_pure] at h
    obtain ⟨-, -, -, -, -, -, -, -, -, -, -, -, rfl, -⟩ := h
    rfl

/-! ## Symlinks and devices -/

def linkFields (owner : Nat) (target : ByteArray) : List Field :=
  [⟨0, 4, linkMagic.toNat⟩, ⟨4, 4, 0⟩, ⟨8, 4, target.size⟩, ⟨32, 8, owner⟩]

theorem laid_linkFields (owner : Nat) (target : ByteArray) :
    Field.Laid 0 linkHeaderLength (linkFields owner target) := by
  simp [linkFields, Field.Laid, Field.stop, linkHeaderLength]

theorem size_linkHeader (owner : Nat) (target : ByteArray) :
    (blockOf imageBlockSize (linkFields owner target)).size = imageBlockSize :=
  ((laid_linkFields owner target).mono (by decide)).size_blockOf

theorem size_encodeTarget {o : ImageOptions} {target : ByteArray} (owner : Nat)
    (h : target.size ≤ maxTargetLength) : (encodeTarget o owner target).size = imageBlockSize := by
  rw [maxTargetLength] at h
  rw [encodeTarget, ← linkFields]
  split
  · rw [size_overwrite, size_linkHeader]
    rw [size_linkHeader, linkHeaderLength, imageBlockSize]
    omega
  · rw [size_overwrite, size_zeros]
    rw [size_zeros, imageBlockSize]
    omega

theorem makesInode_addInlineLink (target : ByteArray) : MakesInode (addInlineLink target) := by
  rw [addInlineLink, checkTarget]
  exact makesInode_guard fun _ => makesInode_addInode _

theorem makesInode_addBlockLink (target : ByteArray) : MakesInode (addBlockLink target) := by
  rw [addBlockLink, checkTarget]
  refine makesInode_guard fun hlen => makesInode_options_bind fun o => ?_
  simp only [Bool.or_eq_true, decide_eq_true_eq, not_or] at hlen
  refine makesInode_bind (fun ino spare b hs => ?_) fun h => ?_
  · refine frames_allocate_bind fun {address mid} hgained => ?_
    obtain ⟨ag, agBlock, hrun⟩ := hgained.run Nat.one_pos
    rw [← hgained.options] at hrun
    have hdata := size_encodeTarget (o := o) ino (Nat.not_lt.mp hlen.2)
    refine frames_bind (frames_writeBlocks hrun Nat.one_pos (Nat.le_of_eq
      (by rw [hdata, Nat.one_mul])) fun hi => ?_) fun _ _ _ hoptions => ?_
    · rw [hgained.options] at hi
      exact Or.inr hi
    · refine frames_writeFile fun hi => ?_
      rw [hoptions, hgained.options] at hi
      exact Or.inl (hs hi)
  · obtain ⟨_, _, -, h⟩ := gives_bind.mp h
    obtain ⟨_, _, -, h⟩ := gives_bind.mp h
    exact eq_of_gives_writeFile h

theorem makesInode_addLink (target : ByteArray) : MakesInode (addLink target) := by
  rw [addLink]
  refine makesInode_options_bind fun o => ?_
  exact makesInode_ite (makesInode_addInlineLink target) (makesInode_addBlockLink target)

theorem makesInode_addSpecial (mode : UInt16) (device : UInt32) :
    MakesInode (addSpecial mode device) :=
  makesInode_addInode _

end BuildM

end XfsVolume
