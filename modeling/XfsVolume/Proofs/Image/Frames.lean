import XfsVolume.Image.Directory
import XfsVolume.Proofs.Image.Inode

/-!
# What a step leaves alone

A step of building a volume keeps the bytes that were handed out before it, and changes no byte
that it does not take for itself, but for those that it was given to write (`Frames`). This holds
of a step whether it succeeds or not, and is closed under the ways in which steps are put together;
what a step takes is its own to write from then on.
-/

namespace XfsVolume

/-! ## Room that was gained -/

namespace Builder

/-- `b'` is `b` after `count` blocks were taken, the first of which has the given address. -/
structure Gained (b : Builder) (address count : Nat) (b' : Builder) : Prop where
  sound : b'.Sound
  options : b'.options = b.options
  image : b'.image = b.image
  taken : b'.taken = b.taken + count
  run : 0 < count → ∃ ag agBlock, b.options.Run address count ag agBlock
  free : ∀ {i}, b.options.InBlocks address count i → ¬ b.Owns i
  owned : ∀ {i}, b.options.InBlocks address count i → b'.Owns i
  grows : ∀ spare, b.Grows spare b'

/-- `b'` is `b` after the slot of inode `ino` was taken. -/
structure GainedSlot (b : Builder) (ino : Nat) (b' : Builder) : Prop where
  sound : b'.Sound
  options : b'.options = b.options
  slot : ∃ ag agBlock slot, b.options.Slot ino ag agBlock slot
  free : ∀ {i}, b.options.InSlot ino i → ¬ b.Owns i
  owned : ∀ {i}, b.options.InSlot ino i → b'.Owns i
  grows : ∀ spare, b.Grows spare b'

/-- `b'` is `b` after a block was taken for each of the addresses, in their order. -/
def GainedAll : Builder → List Nat → Builder → Prop
  | b, [], b' => b' = b
  | b, address :: rest, b' => ∃ mid, b.Gained address 1 mid ∧ mid.GainedAll rest b'

variable {b b' : Builder}

theorem GainedAll.sound : ∀ {addresses : List Nat} {b : Builder}, b.GainedAll addresses b' →
    b.Sound → b'.Sound ∧ b'.options = b.options ∧ b'.taken = b.taken + addresses.length
  | [], _, h, hb => by
      cases h
      exact ⟨hb, rfl, rfl⟩
  | _ :: rest, _, h, _ => by
      obtain ⟨mid, hfirst, hrest⟩ := h
      obtain ⟨hsound, hoptions, htaken⟩ := GainedAll.sound hrest hfirst.sound
      refine ⟨hsound, hoptions.trans hfirst.options, ?_⟩
      rw [htaken, hfirst.taken, List.length_cons, Nat.add_assoc, Nat.add_comm 1]

theorem GainedAll.grows (spare : Nat → Prop) : ∀ {addresses : List Nat} {b : Builder},
    b.GainedAll addresses b' → b.Grows spare b'
  | [], _, h => by
      cases h
      exact .refl _
  | _ :: _, _, h => by
      obtain ⟨mid, hfirst, hrest⟩ := h
      exact (hfirst.grows spare).trans (GainedAll.grows spare hrest)

/-- Each block was free before, and is handed out from then on. -/
theorem GainedAll.block : ∀ {addresses : List Nat} {b : Builder}, b.GainedAll addresses b' →
    ∀ address ∈ addresses, (∃ ag agBlock, b.options.Run address 1 ag agBlock) ∧
      ∀ {i}, b.options.InBlocks address 1 i → ¬ b.Owns i ∧ b'.Owns i
  | first :: rest, b, h, address, hin => by
      obtain ⟨mid, hfirst, hrest⟩ := h
      rcases List.mem_cons.mp hin with rfl | hin
      · refine ⟨hfirst.run Nat.one_pos, fun hi => ⟨hfirst.free hi, ?_⟩⟩
        exact (GainedAll.grows (fun _ => False) hrest).owns (hfirst.owned hi)
      · obtain ⟨hrun, hblock⟩ := GainedAll.block hrest address hin
        rw [hfirst.options] at hrun hblock
        refine ⟨hrun, fun hi => ⟨fun hown => ?_, (hblock hi).2⟩⟩
        exact (hblock hi).1 ((hfirst.grows fun _ => False).owns hown)

/-- No two of the blocks have a byte in common. -/
theorem GainedAll.apart : ∀ {addresses : List Nat} {b : Builder}, b.GainedAll addresses b' →
    addresses.Pairwise fun a c => ∀ {i}, b.options.InBlocks a 1 i → ¬ b.options.InBlocks c 1 i
  | [], _, _ => List.Pairwise.nil
  | first :: rest, b, h => by
      obtain ⟨mid, hfirst, hrest⟩ := h
      have htail := GainedAll.apart hrest
      rw [hfirst.options] at htail
      refine List.pairwise_cons.mpr ⟨fun c hc i hi hic => ?_, htail⟩
      obtain ⟨-, hblock⟩ := GainedAll.block hrest c hc
      rw [hfirst.options] at hblock
      exact (hblock hic).1 (hfirst.owned hi)

theorem Took.gained {ag count agBlock : Nat} (h : b.Took ag count agBlock b') (hb : b.Sound) :
    b.Gained (b.address ag agBlock) count b' where
  sound := h.sound hb
  options := h.options
  image := by rw [h.after]
  taken := h.taken
  run hc := ⟨ag, agBlock, h.run hb hc⟩
  free := h.free hb
  owned := h.owned hb
  grows _ := h.grows

theorem TookSlot.gained {ag agBlock slot : Nat} (h : b.TookSlot ag agBlock slot b')
    (hb : b.Sound) : b.GainedSlot
      (ag <<< b.options.inodeBits + (agBlock * b.options.inodesPerBlock + slot)) b' where
  sound := h.sound hb
  options := h.options
  slot := ⟨ag, agBlock, slot, h.slotAt hb⟩
  free := h.free hb
  owned := h.owned hb
  grows _ := h.grows hb

end Builder

namespace BuildM

open Builder

variable {α β : Type} {b b' : Builder} {spare : Nat → Prop}

theorem gained_of_gives {count address : Nat} (h : Gives (allocate count) b address b')
    (hb : b.Sound) : b.Gained address count b' := by
  obtain ⟨ag, agBlock, rfl, htook⟩ := took_of_gives h
  exact htook.gained hb

theorem gainedSlot_of_gives {ag ino : Nat} (h : Gives (reserveIn ag) b ino b') (hb : b.Sound) :
    b.GainedSlot ino b' := by
  rcases run_reserveIn ag b with ⟨agBlock, slot, left, hrun, htook⟩ | ⟨e, hrun⟩
  · rw [Gives, hrun] at h
    cases h
    exact htook.gained hb
  · rw [Gives, hrun] at h
    cases h

theorem gainedAll_of_gives : ∀ {l : List α} {b : Builder} {addresses : List Nat},
    Gives (l.mapM fun _ => allocate 1) b addresses b' → b.Sound →
      addresses.length = l.length ∧ b.GainedAll addresses b'
  | [], _, _, h, _ => by
      obtain ⟨rfl, rfl⟩ := gives_pure.mp h
      exact ⟨rfl, rfl⟩
  | _ :: l, _, _, h, hb => by
      simp only [List.mapM_cons, gives_bind, gives_pure] at h
      obtain ⟨address, mid, hfirst, rest, left, hrest, rfl, rfl⟩ := h
      have hgained := gained_of_gives hfirst hb
      obtain ⟨hlen, hall⟩ := gainedAll_of_gives hrest hgained.sound
      exact ⟨by rw [List.length_cons, hlen, List.length_cons], mid, hgained, hall⟩

theorem exists_gives_allocateAll : ∀ {l : List α} {b : Builder}, b.Sound →
    b.taken + l.length ≤ b.options.totalBlocks →
      ∃ addresses b', Gives (l.mapM fun _ => allocate 1) b addresses b'
  | [], b, _, _ => ⟨[], b, gives_pure.mpr ⟨rfl, rfl⟩⟩
  | _ :: l, b, hb, hroom => by
      rw [List.length_cons] at hroom
      obtain ⟨address, mid, hfirst⟩ := exists_gives_allocate hb (by omega)
      have hgained := gained_of_gives hfirst hb
      have hroomRest : mid.taken + l.length ≤ mid.options.totalBlocks := by
        rw [hgained.taken, hgained.options]
        omega
      obtain ⟨rest, b', hrest⟩ := exists_gives_allocateAll hgained.sound hroomRest
      refine ⟨address :: rest, b', ?_⟩
      simp only [List.mapM_cons, gives_bind, gives_pure]
      exact ⟨address, mid, hfirst, rest, b', hrest, rfl, rfl⟩

/-! ## The judgement -/

/-- What was handed out before `x` is kept by it, whether it succeeds or not, but for the bytes of
`spare`; and so is what was not handed out after it. -/
def Frames (spare : Nat → Prop) (x : BuildM α) (b : Builder) : Prop :=
  b.Sound → (after x b).Sound ∧ b.Grows spare (after x b)

theorem Frames.of_gives {x : BuildM α} {a : α} (h : Frames spare x b) (hb : b.Sound)
    (hx : Gives x b a b') : b'.Sound ∧ b.Grows spare b' := by
  have hafter := h hb
  rwa [hx.after_eq] at hafter

theorem frames_pure (a : α) : Frames spare (pure a) b := fun hb => ⟨hb, .refl b⟩

theorem frames_throw (e : BuildFault) : Frames spare (throw e : BuildM α) b :=
  fun hb => ⟨hb, .refl b⟩

theorem frames_liftM (r : Except BuildFault α) : Frames spare (liftM r : BuildM α) b :=
  fun hb => ⟨hb, .refl b⟩

theorem frames_get : Frames spare (get : BuildM Builder) b := fun hb => ⟨hb, .refl b⟩

theorem frames_options : Frames spare options b := fun hb => ⟨hb, .refl b⟩

theorem after_bind (x : BuildM α) (f : α → BuildM β) (b : Builder) :
    (∃ a mid, Gives x b a mid ∧ after (x >>= f) b = after (f a) mid) ∨
      after (x >>= f) b = after x b := by
  rw [after, run_bind, after]
  cases hx : x.run.run b with
  | mk r mid =>
    cases r with
    | ok a => exact Or.inl ⟨a, mid, hx, rfl⟩
    | error e => exact Or.inr rfl

theorem frames_bind_taking {x : BuildM α} {f : α → BuildM β} (taken : α → Nat → Prop)
    (hx : Frames spare x b)
    (ht : ∀ {a mid}, b.Sound → Gives x b a mid → ∀ {i}, taken a i → ¬ b.Owns i ∧ mid.Owns i)
    (hf : ∀ {a mid}, b.Sound → Gives x b a mid → mid.Sound → mid.options = b.options →
      Frames (fun i => spare i ∨ taken a i) (f a) mid) :
    Frames spare (x >>= f) b := by
  intro hb
  rcases after_bind x f b with ⟨a, mid, hgives, heq⟩ | heq
  · obtain ⟨hmid, hgrows⟩ := hx.of_gives hb hgives
    obtain ⟨hafter, hgrows'⟩ := hf hb hgives hmid hgrows.options hmid
    rw [heq]
    exact ⟨hafter, hgrows.absorb hgrows' (fun hi => (ht hb hgives hi).1)
      fun hi => (ht hb hgives hi).2⟩
  · rw [heq]
    exact hx hb

theorem frames_bind {x : BuildM α} {f : α → BuildM β} (hx : Frames spare x b)
    (hf : ∀ {a mid}, b.Sound → Gives x b a mid → mid.Sound → mid.options = b.options →
      Frames spare (f a) mid) : Frames spare (x >>= f) b := by
  apply frames_bind_taking (fun _ _ => False) hx (fun _ _ _ hi => hi.elim)
  intro a mid hb hgives hmid hoptions hmid'
  obtain ⟨hafter, hgrows⟩ := hf hb hgives hmid hoptions hmid'
  exact ⟨hafter, hgrows.mono fun _ hi => Or.inl hi⟩

theorem frames_ite {p : Prop} [Decidable p] {x y : BuildM α} (hx : Frames spare x b)
    (hy : Frames spare y b) : Frames spare (if p then x else y) b := by
  split
  · exact hx
  · exact hy

/-- A check before the rest of a step. -/
theorem frames_guard {p : Prop} [Decidable p] {e : BuildFault} {f : Unit → BuildM β}
    (hf : ∀ u, Frames spare (f u) b) :
    Frames spare (if p then (throw e : BuildM Unit) >>= f else f ()) b :=
  frames_ite (frames_bind (frames_throw e) fun _ h => (gives_throw.mp h).elim) (hf ())

theorem frames_options_bind {f : ImageOptions → BuildM β} (hf : Frames spare (f b.options) b) :
    Frames spare (options >>= f) b := by
  apply frames_bind frames_options
  intro a mid _ h _ _
  obtain ⟨rfl, rfl⟩ := gives_options.mp h
  exact hf

theorem frames_get_bind {f : Builder → BuildM β} (hf : Frames spare (f b) b) :
    Frames spare (get >>= f) b := by
  apply frames_bind frames_get
  intro a mid _ h _ _
  obtain ⟨rfl, rfl⟩ := gives_get.mp h
  exact hf

theorem frames_liftM_bind {r : Except BuildFault α} {f : α → BuildM β}
    (hf : ∀ {a}, r = .ok a → Frames spare (f a) b) : Frames spare (liftM r >>= f) b := by
  apply frames_bind (frames_liftM r)
  intro a mid _ h _ _
  obtain ⟨hr, rfl⟩ := gives_liftM.mp h
  exact hf hr

theorem frames_mapM {f : α → BuildM β} (hf : ∀ a b, Frames spare (f a) b) :
    ∀ (l : List α) (b : Builder), Frames spare (l.mapM f) b
  | [], b => frames_pure _
  | a :: l, b => by
      rw [List.mapM_cons]
      refine frames_bind (hf a b) fun _ _ _ _ => ?_
      exact frames_bind (frames_mapM hf l _) fun _ _ _ _ => frames_pure _

/-- Steps over a list, each of which may rely on the options and on the member it is for. -/
theorem frames_foldlM {f : β → α → BuildM β} (o : ImageOptions) :
    ∀ {l : List α} {s : β} {b : Builder}, b.options = o →
      (∀ s b, b.options = o → ∀ a ∈ l, Frames spare (f s a) b) → Frames spare (l.foldlM f s) b
  | [], s, b, _, _ => frames_pure _
  | a :: l, s, b, ho, hf => by
      rw [List.foldlM_cons]
      refine frames_bind (hf s b ho a List.mem_cons_self) fun _ _ _ hoptions => ?_
      exact frames_foldlM o (hoptions.trans ho) fun s b ho c hc =>
        hf s b ho c (List.mem_cons_of_mem _ hc)

/-! ## Taking room -/

theorem frames_allocate (count : Nat) : Frames spare (allocate count) b := by
  intro hb
  rcases run_allocate count b with ⟨ag, agBlock, left, hrun, htook⟩ | ⟨e, hrun⟩
  · rw [after, hrun]
    exact ⟨htook.sound hb, htook.grows⟩
  · rw [after, hrun]
    exact ⟨hb, .refl b⟩

theorem frames_allocateIn (ag count : Nat) : Frames spare (allocateIn ag count) b := by
  intro hb
  rcases run_allocateIn ag count b with ⟨agBlock, left, hrun, htook⟩ | ⟨e, hrun⟩
  · rw [after, hrun]
    exact ⟨htook.sound hb, htook.grows⟩
  · rw [after, hrun]
    exact ⟨hb, .refl b⟩

theorem frames_reserveIn (ag : Nat) : Frames spare (reserveIn ag) b := by
  intro hb
  rcases run_reserveIn ag b with ⟨agBlock, slot, left, hrun, htook⟩ | ⟨e, hrun⟩
  · rw [after, hrun]
    exact ⟨htook.sound hb, htook.grows hb⟩
  · rw [after, hrun]
    exact ⟨hb, .refl b⟩

theorem frames_allocate_bind {count : Nat} {f : Nat → BuildM β}
    (hf : ∀ {address mid}, b.Gained address count mid →
      Frames (fun i => spare i ∨ b.options.InBlocks address count i) (f address) mid) :
    Frames spare (allocate count >>= f) b := by
  refine frames_bind_taking (fun address => b.options.InBlocks address count)
    (frames_allocate count) ?_ ?_
  · intro address mid hb h i hi
    have hgained := gained_of_gives h hb
    exact ⟨hgained.free hi, hgained.owned hi⟩
  · intro address mid hb h _ _
    exact hf (gained_of_gives h hb)

theorem frames_reserveIn_bind {ag : Nat} {f : Nat → BuildM β}
    (hf : ∀ {ino mid}, b.GainedSlot ino mid →
      Frames (fun i => spare i ∨ b.options.InSlot ino i) (f ino) mid) :
    Frames spare (reserveIn ag >>= f) b := by
  refine frames_bind_taking (fun ino => b.options.InSlot ino) (frames_reserveIn ag) ?_ ?_
  · intro ino mid hb h i hi
    have hgained := gainedSlot_of_gives h hb
    exact ⟨hgained.free hi, hgained.owned hi⟩
  · intro ino mid hb h _ _
    exact hf (gainedSlot_of_gives h hb)

/-! ## Writing -/

theorem frames_setRoot (ino : Nat) : Frames spare (setRoot ino) b :=
  fun hb => ⟨⟨hb.accepted, hb.size, hb.groups, hb.inodeGroups, hb.fronts, hb.slots⟩,
    ⟨rfl, id, fun _ _ => rfl⟩⟩

theorem frames_writeAt {off : Nat} {data : ByteArray} (hin : off + data.size ≤ b.image.size)
    (hs : ∀ {i}, off ≤ i → i < off + data.size → spare i) : Frames spare (writeAt off data) b := by
  intro hb
  refine ⟨⟨hb.accepted, ?_, hb.groups, hb.inodeGroups, hb.fronts, hb.slots⟩, rfl, id, ?_⟩
  · show (overwrite b.image off data).size = _
    rw [size_overwrite hin]
    exact hb.size
  · intro i _ hspare
    show byteAt (overwrite b.image off data) i = _
    rw [byteAt_overwrite hin, if_neg]
    rintro ⟨hle, hlt⟩
    exact hspare (hs hle hlt)

/-- Writing to blocks that were given to be written. -/
theorem frames_writeBlocks {address count ag agBlock : Nat} {data : ByteArray}
    (hrun : b.options.Run address count ag agBlock) (hc : 0 < count)
    (hsize : data.size ≤ count * imageBlockSize)
    (hs : ∀ {i}, b.options.InBlocks address count i → spare i) :
    Frames spare (writeBlocks address data) b := by
  intro hb
  have hin := hrun.bytes_le hc
  rw [← hb.size] at hin
  refine frames_options_bind (frames_writeAt (by omega) ?_) hb
  intro i hle hlt
  exact hs ⟨hle, by omega⟩

/-- Writing to an inode slot that was given to be written. -/
theorem frames_writeInode {ino : Nat} (draft : InodeDraft)
    (hs : ∀ {i}, b.options.InSlot ino i → spare i) : Frames spare (writeInode ino draft) b := by
  intro hb
  rw [writeInode]
  refine frames_options_bind ?_ hb
  by_cases hfork : draft.fork.size > b.options.literalLength
  · rw [if_pos hfork]
    exact frames_bind (frames_throw _) fun _ h => (gives_throw.mp h).elim
  · rw [if_neg hfork]
    refine frames_get_bind ?_
    by_cases hin : b.options.inodeOffset ino + b.options.inodeSize > b.image.size
    · rw [if_pos hin]
      exact frames_bind (frames_throw _) fun _ h => (gives_throw.mp h).elim
    · rw [if_neg hin]
      have hsize : (draft.encode b.options ino).size = b.options.inodeSize :=
        InodeDraft.size_encode hb.accepted (Nat.not_lt.mp hfork)
      refine frames_bind (frames_writeAt (by omega) ?_) fun _ _ _ _ hmid => ?_
      · intro i hle hlt
        exact hs ⟨hle, by omega⟩
      · exact ⟨⟨hmid.accepted, hmid.size, hmid.groups, hmid.inodeGroups, hmid.fronts, hmid.slots⟩,
          rfl, id, fun _ _ => rfl⟩

end BuildM

end XfsVolume
