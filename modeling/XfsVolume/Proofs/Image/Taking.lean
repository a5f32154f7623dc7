import XfsVolume.Proofs.Image.Room

/-!
# Taking room

Blocks are taken from the front of a group, so that they were not handed out before and are now; an
inode slot is the next one of the group's inode block, or the first of a block taken for it. What
is taken lies inside the volume and behind the headers of its group.
-/

namespace XfsVolume

namespace Builder

/-! ## Blocks -/

/-- `b'` is `b` after `count` blocks of group `ag` were taken, the first of which is `agBlock`. -/
structure Took (b : Builder) (ag count agBlock : Nat) (b' : Builder) : Prop where
  next : b.nextBlocks[ag]? = some agBlock
  room : agBlock + count ≤ b.options.agBlocks
  after : b' = { b with nextBlocks := b.nextBlocks.setIfInBounds ag (agBlock + count) }

variable {b b' : Builder} {ag count agBlock : Nat} {spare : Nat → Prop}

theorem Took.options (h : b.Took ag count agBlock b') : b'.options = b.options := by
  rw [h.after]

theorem Took.front (h : b.Took ag count agBlock b') (other : Nat) :
    b'.nextBlocks[other]? = if ag = other then some (agBlock + count) else b.nextBlocks[other]? := by
  obtain ⟨hlt, -⟩ := Array.getElem?_eq_some_iff.mp h.next
  rw [h.after, Array.getElem?_setIfInBounds]
  by_cases heq : ag = other
  · subst heq
    rw [if_pos rfl, if_pos rfl, if_pos hlt]
  · rw [if_neg heq, if_neg heq]

theorem Took.taken (h : b.Took ag count agBlock b') : b'.taken = b.taken + count := by
  obtain ⟨hlt, hnext⟩ := Array.getElem?_eq_some_iff.mp h.next
  have hlt' : ag < b.nextBlocks.toList.length := hlt
  have hsum := List.sum_take_add_sum_drop b.nextBlocks.toList ag
  rw [List.drop_eq_getElem_cons hlt', List.sum_cons, Array.getElem_toList, hnext] at hsum
  rw [Builder.taken, Builder.taken, h.after, Array.toList_setIfInBounds, List.sum_set,
    if_pos hlt', ← hsum]
  omega

theorem Took.sound (h : b.Took ag count agBlock b') (hb : b.Sound) : b'.Sound where
  accepted := by
    rw [h.options]
    exact hb.accepted
  size := by
    rw [h.options, h.after]
    exact hb.size
  groups := by
    rw [h.options, h.after, Array.size_setIfInBounds]
    exact hb.groups
  inodeGroups := by
    rw [h.options, h.after]
    exact hb.inodeGroups
  fronts {other next} hnext := by
    have hfront := hb.fronts h.next
    have hroom := h.room
    rw [h.front] at hnext
    rw [h.options]
    split at hnext
    · cases hnext
      omega
    · exact hb.fronts hnext
  slots {other block slot} hslot := by
    have hsame : b'.inodeBlocks = b.inodeBlocks := by rw [h.after]
    rw [hsame] at hslot
    obtain ⟨hpos, hper, next, hnext, hlt⟩ := hb.slots hslot
    rw [h.options]
    refine ⟨hpos, hper, ?_⟩
    by_cases heq : ag = other
    · subst heq
      rw [h.next] at hnext
      cases hnext
      exact ⟨agBlock + count, by rw [h.front, if_pos rfl], by omega⟩
    · exact ⟨next, by rw [h.front, if_neg heq, hnext], hlt⟩

theorem Took.grows (h : b.Took ag count agBlock b') : b.Grows spare b' where
  options := h.options
  owns {i} hi := by
    obtain ⟨next, hnext, hpos, hlt, hslots⟩ := hi
    have hsame : b'.inodeBlocks = b.inodeBlocks := by rw [h.after]
    rw [Owns, h.options, h.front, hsame]
    split
    · rename_i heq
      rw [← heq, h.next] at hnext
      cases hnext
      exact ⟨agBlock + count, rfl, hpos, by omega, hslots⟩
    · exact ⟨next, hnext, hpos, hlt, hslots⟩
  keeps _ _ := by rw [h.after]

theorem Took.run (h : b.Took ag count agBlock b') (hb : b.Sound) (hc : 0 < count) :
    b.options.Run (b.address ag agBlock) count ag agBlock where
  address := by
    have hlog := b.options.agBlocks_le
    have hroom := h.room
    rw [Builder.address, shiftLeft_or_eq (by omega), Nat.shiftLeft_eq]
  group := by
    obtain ⟨hlt, -⟩ := Array.getElem?_eq_some_iff.mp h.next
    rwa [hb.groups] at hlt
  afterHeaders := (hb.fronts h.next).1
  room := h.room

/-- Blocks that are taken were not handed out before. -/
theorem Took.free (h : b.Took ag count agBlock b') (hb : b.Sound) {i : Nat}
    (hi : b.options.InBlocks (b.address ag agBlock) count i) : ¬ b.Owns i := by
  have hc : 0 < count := by
    apply Nat.pos_of_ne_zero
    rintro rfl
    rw [ImageOptions.InBlocks] at hi
    omega
  have hrun := h.run hb hc
  have hroom := h.room
  obtain ⟨k, r, hk, hr, rfl⟩ := hrun.byte hi
  rw [owns_place (by omega) hr]
  rintro ⟨next, hnext, -, hlt, -⟩
  rw [h.next] at hnext
  cases hnext
  omega

/-- Blocks that are taken are handed out from then on. -/
theorem Took.owned (h : b.Took ag count agBlock b') (hb : b.Sound) {i : Nat}
    (hi : b.options.InBlocks (b.address ag agBlock) count i) : b'.Owns i := by
  have hc : 0 < count := by
    apply Nat.pos_of_ne_zero
    rintro rfl
    rw [ImageOptions.InBlocks] at hi
    omega
  have hrun := h.run hb hc
  have hroom := h.room
  have hpos := hrun.afterHeaders
  obtain ⟨k, r, hk, hr, rfl⟩ := hrun.byte hi
  rw [← h.options] at hroom ⊢
  rw [owns_place (by omega) hr]
  refine ⟨agBlock + count, by rw [h.front, if_pos rfl], by omega, by omega, ?_⟩
  intro block slot hslot hblock
  have hsame : b'.inodeBlocks = b.inodeBlocks := by rw [h.after]
  rw [hsame] at hslot
  obtain ⟨-, -, next, hnext, hlt⟩ := hb.slots hslot
  rw [h.next] at hnext
  cases hnext
  omega

end Builder

/-! ## Inode slots -/

namespace ImageOptions

variable {o : ImageOptions}

/-- Inode `ino` is in slot `slot` of block `agBlock` of group `ag`. -/
structure Slot (o : ImageOptions) (ino ag agBlock slot : Nat) : Prop where
  number : ino = ag <<< o.inodeBits + (agBlock * o.inodesPerBlock + slot)
  group : ag < o.agCount
  afterHeaders : 1 ≤ agBlock
  room : agBlock < o.agBlocks
  inBlock : slot < o.inodesPerBlock

variable {ino ag agBlock slot : Nat}

/-- The parts of an inode number. -/
theorem Slot.parts (h : o.Slot ino ag agBlock slot) (ho : o.Accepted) :
    ino >>> o.inodeBits = ag ∧
      ino % (1 <<< o.inodeBits) = agBlock * o.inodesPerBlock + slot := by
  have hpow : 2 ^ o.agBlockLog * o.inodesPerBlock = 2 ^ o.inodeBits := by
    rw [ho.inode_logs.2.1, ← Nat.pow_add, inodeBits]
  have hlt : agBlock * o.inodesPerBlock + slot < 2 ^ o.inodeBits := by
    rw [← hpow]
    exact digits_lt (Nat.lt_of_lt_of_le h.room o.agBlocks_le) h.inBlock
  rw [h.number]
  exact shift_digits_eq ag hlt

theorem Slot.place (h : o.Slot ino ag agBlock slot) (ho : o.Accepted) :
    (ino % (1 <<< o.inodeBits)) / o.inodesPerBlock = agBlock ∧
      (ino % (1 <<< o.inodeBits)) % o.inodesPerBlock = slot := by
  rw [(h.parts ho).2]
  exact digits_eq agBlock h.inBlock

theorem Slot.inodeOffset_eq (h : o.Slot ino ag agBlock slot) (ho : o.Accepted) :
    o.inodeOffset ino = o.volumeBlock ag agBlock * imageBlockSize + slot * o.inodeSize := by
  obtain ⟨hag, hplace⟩ := h.parts ho
  obtain ⟨hblock, hslot⟩ := h.place ho
  rw [inodeOffset, hblock, hslot, hag, Nat.shiftLeft_eq, ← ho.inode_logs.1]
  rfl

/-- A slot ends inside its block. -/
theorem Slot.stop_le (h : o.Slot ino ag agBlock slot) (ho : o.Accepted) :
    slot * o.inodeSize + o.inodeSize ≤ imageBlockSize := by
  rw [← ho.inodes_fill]
  exact unit_stop_le o.inodeSize h.inBlock

/-- A byte of a slot lies in the slot's block. -/
theorem Slot.byte (h : o.Slot ino ag agBlock slot) (ho : o.Accepted) {i : Nat}
    (hi : o.InSlot ino i) : ∃ r, slot * o.inodeSize ≤ r ∧ r < (slot + 1) * o.inodeSize ∧
      r < imageBlockSize ∧ i = o.volumeBlock ag agBlock * imageBlockSize + r := by
  have hstop := h.stop_le ho
  rw [InSlot, h.inodeOffset_eq ho] at hi
  rw [Nat.add_mul, Nat.one_mul]
  exact ⟨i - o.volumeBlock ag agBlock * imageBlockSize, by omega, by omega, by omega, by omega⟩

theorem Slot.bytes_le (h : o.Slot ino ag agBlock slot) (ho : o.Accepted) :
    o.inodeOffset ino + o.inodeSize ≤ o.totalBlocks * imageBlockSize := by
  have hstop := h.stop_le ho
  have hblock := unit_stop_le imageBlockSize (volumeBlock_lt h.group h.room)
  rw [h.inodeOffset_eq ho]
  omega

end ImageOptions

namespace Builder

/-- `b'` is `b` after slot `slot` of inode block `agBlock` of group `ag` was taken: the next slot of
the group's inode block, or the first slot of a block taken for inodes. -/
inductive TookSlot (b : Builder) (ag : Nat) : (agBlock slot : Nat) → Builder → Prop
  | next {agBlock slot : Nat} (free : slot < b.options.inodesPerBlock)
      (place : b.inodeBlocks[ag]? = some (some (agBlock, slot))) : TookSlot b ag agBlock slot
        { b with inodeBlocks := b.inodeBlocks.setIfInBounds ag (some (agBlock, slot + 1)) }
  | first {agBlock : Nat} {mid : Builder} (took : b.Took ag 1 agBlock mid) :
      TookSlot b ag agBlock 0
        { mid with inodeBlocks := b.inodeBlocks.setIfInBounds ag (some (agBlock, 1)) }

variable {b b' : Builder} {ag agBlock slot ino : Nat} {spare : Nat → Prop}

theorem getElem?_set_inodeBlock (hb : b.Sound) (h : ag < b.options.agCount) (x : Option (Nat × Nat))
    (other : Nat) : (b.inodeBlocks.setIfInBounds ag x)[other]? =
      if ag = other then some x else b.inodeBlocks[other]? := by
  rw [Array.getElem?_setIfInBounds]
  by_cases heq : ag = other
  · subst heq
    rw [if_pos rfl, if_pos rfl, if_pos (by rwa [hb.inodeGroups])]
  · rw [if_neg heq, if_neg heq]

theorem TookSlot.group (h : b.TookSlot ag agBlock slot b') (hb : b.Sound) :
    ag < b.options.agCount := by
  cases h with
  | next free place =>
    obtain ⟨hlt, -⟩ := Array.getElem?_eq_some_iff.mp place
    rwa [hb.inodeGroups] at hlt
  | first took =>
    obtain ⟨hlt, -⟩ := Array.getElem?_eq_some_iff.mp took.next
    rwa [hb.groups] at hlt

theorem TookSlot.options (h : b.TookSlot ag agBlock slot b') : b'.options = b.options := by
  cases h with
  | next free place => rfl
  | first took => exact took.options

theorem TookSlot.image (h : b.TookSlot ag agBlock slot b') : b'.image = b.image := by
  cases h with
  | next free place => rfl
  | first took =>
    rw [took.after]

theorem TookSlot.inodeBlocks (h : b.TookSlot ag agBlock slot b') (hb : b.Sound) (other : Nat) :
    b'.inodeBlocks[other]? =
      if ag = other then some (some (agBlock, slot + 1)) else b.inodeBlocks[other]? := by
  have hgroup := h.group hb
  cases h with
  | next free place => exact getElem?_set_inodeBlock hb hgroup _ other
  | first took => exact getElem?_set_inodeBlock hb hgroup _ other

/-- The front of the slot's group lies behind its block, and no front moves back. -/
theorem TookSlot.fronts (h : b.TookSlot ag agBlock slot b') (hb : b.Sound) :
    (∃ next, b'.nextBlocks[ag]? = some next ∧ 1 ≤ agBlock ∧ agBlock < next ∧
      next ≤ b.options.agBlocks) ∧
    ∀ other, b'.nextBlocks[other]? = b.nextBlocks[other]? ∨
      ag = other ∧ slot = 0 ∧ b.nextBlocks[other]? = some agBlock ∧
        b'.nextBlocks[other]? = some (agBlock + 1) := by
  cases h with
  | next free place =>
    obtain ⟨hpos, -, next, hnext, hlt⟩ := hb.slots place
    exact ⟨⟨next, hnext, hpos, hlt, (hb.fronts hnext).2⟩, fun other => Or.inl rfl⟩
  | first took =>
    refine ⟨⟨agBlock + 1, ?_, (hb.fronts took.next).1, Nat.lt_succ_self _, took.room⟩, ?_⟩
    · rw [took.front, if_pos rfl]
    · intro other
      by_cases heq : ag = other
      · subst heq
        exact Or.inr ⟨rfl, rfl, took.next, by rw [took.front, if_pos rfl]⟩
      · exact Or.inl (by rw [took.front, if_neg heq])

theorem TookSlot.sound (h : b.TookSlot ag agBlock slot b') (hb : b.Sound) : b'.Sound := by
  have hslot : slot < b.options.inodesPerBlock := by
    cases h with
    | next free place => exact free
    | first took => exact hb.accepted.inodesPerBlock_pos
  obtain ⟨⟨front, hfront, hpos, hlt, hle⟩, hothers⟩ := h.fronts hb
  refine ⟨?_, ?_, ?_, ?_, ?_, ?_⟩
  · rw [h.options]
    exact hb.accepted
  · rw [h.options, h.image]
    exact hb.size
  · rw [h.options, ← hb.groups]
    cases h with
    | next free place => rfl
    | first took => rw [took.after, Array.size_setIfInBounds]
  · rw [h.options, ← hb.inodeGroups]
    cases h with
    | next free place => exact Array.size_setIfInBounds
    | first took => exact Array.size_setIfInBounds
  · intro other next hnext
    rw [h.options]
    rcases hothers other with hsame | ⟨rfl, -⟩
    · rw [hsame] at hnext
      exact hb.fronts hnext
    · rw [hfront] at hnext
      cases hnext
      exact ⟨by omega, hle⟩
  · intro other block used hused
    rw [h.inodeBlocks hb] at hused
    rw [h.options]
    by_cases heq : ag = other
    · subst heq
      rw [if_pos rfl] at hused
      cases hused
      exact ⟨hpos, hslot, front, hfront, hlt⟩
    · rw [if_neg heq] at hused
      obtain ⟨hblock, hper, next, hnext, hbefore⟩ := hb.slots hused
      rcases hothers other with hsame | ⟨hag, -⟩
      · exact ⟨hblock, hper, next, by rw [hsame, hnext], hbefore⟩
      · exact absurd hag heq

theorem TookSlot.grows (h : b.TookSlot ag agBlock slot b') (hb : b.Sound) : b.Grows spare b' where
  options := h.options
  keeps _ _ := by rw [h.image]
  owns {i} hi := by
    obtain ⟨next, hnext, hpos, hlt, hslots⟩ := hi
    obtain ⟨-, hothers⟩ := h.fronts hb
    rw [Owns, h.options, h.inodeBlocks hb]
    by_cases heq : ag = i / imageBlockSize / b.options.agBlocks
    · rw [if_pos heq]
      rw [← heq] at hnext hslots ⊢
      cases h with
      | next free place =>
        refine ⟨next, hnext, hpos, hlt, ?_⟩
        intro block used hused hblock
        cases hused
        have hbefore := hslots agBlock slot place hblock
        rw [Nat.add_mul]
        omega
      | first took =>
        have hfront := took.next
        rw [hnext] at hfront
        cases hfront
        refine ⟨agBlock + 1, by rw [took.front, if_pos rfl], hpos, by omega, ?_⟩
        intro block used hused hblock
        cases hused
        omega
    · rw [if_neg heq]
      rcases hothers (i / imageBlockSize / b.options.agBlocks) with hsame | ⟨hag, -⟩
      · exact ⟨next, by rw [hsame, hnext], hpos, hlt, hslots⟩
      · exact absurd hag heq

theorem TookSlot.slotAt (h : b.TookSlot ag agBlock slot b') (hb : b.Sound) :
    b.options.Slot (ag <<< b.options.inodeBits + (agBlock * b.options.inodesPerBlock + slot))
      ag agBlock slot where
  number := rfl
  group := h.group hb
  afterHeaders := by
    obtain ⟨⟨front, -, hpos, -, -⟩, -⟩ := h.fronts hb
    exact hpos
  room := by
    obtain ⟨⟨front, -, -, hlt, hle⟩, -⟩ := h.fronts hb
    exact Nat.lt_of_lt_of_le hlt hle
  inBlock := by
    cases h with
    | next free place => exact free
    | first took => exact hb.accepted.inodesPerBlock_pos

/-- A slot that is taken was not handed out before. -/
theorem TookSlot.free (h : b.TookSlot ag agBlock slot b') (hb : b.Sound) {i : Nat}
    (hi : b.options.InSlot
      (ag <<< b.options.inodeBits + (agBlock * b.options.inodesPerBlock + slot)) i) :
    ¬ b.Owns i := by
  have hslot := h.slotAt hb
  obtain ⟨r, hlow, -, hr, rfl⟩ := hslot.byte hb.accepted hi
  rw [owns_place hslot.room hr]
  rintro ⟨next, hnext, -, hlt, hslots⟩
  cases h with
  | next free place =>
    have := hslots agBlock slot place rfl
    omega
  | first took =>
    have hfront := took.next
    rw [hnext] at hfront
    cases hfront
    omega

/-- A slot that is taken is handed out from then on. -/
theorem TookSlot.owned (h : b.TookSlot ag agBlock slot b') (hb : b.Sound) {i : Nat}
    (hi : b.options.InSlot
      (ag <<< b.options.inodeBits + (agBlock * b.options.inodesPerBlock + slot)) i) :
    b'.Owns i := by
  have hslot := h.slotAt hb
  have hroom := hslot.room
  obtain ⟨r, -, hhigh, hr, rfl⟩ := hslot.byte hb.accepted hi
  obtain ⟨⟨front, hfront, hpos, hlt, -⟩, -⟩ := h.fronts hb
  rw [← h.options] at hroom ⊢
  rw [owns_place hroom hr]
  refine ⟨front, hfront, hpos, hlt, ?_⟩
  intro block used hused hblock
  rw [h.inodeBlocks hb, if_pos rfl] at hused
  cases hused
  rw [h.options]
  exact hhigh

end Builder

namespace BuildM

open Builder

variable {b b' : Builder} {ag count : Nat}

theorem hasRoom_eq_true : b.hasRoom ag count = true ↔
    ∃ next, b.nextBlocks[ag]? = some next ∧ next + count ≤ b.options.agBlocks := by
  rw [hasRoom]
  cases b.nextBlocks[ag]? with
  | none => simp
  | some next => simp

theorem run_takeBlocks (count : Nat) {agBlock : Nat} (h : b.nextBlocks[ag]? = some agBlock) :
    (takeBlocks ag count).run.run b = (.ok agBlock,
      { b with nextBlocks := b.nextBlocks.setIfInBounds ag (agBlock + count) }) := by
  have hfront : b.nextBlocks.getD ag 0 = agBlock := by
    rw [Array.getD_eq_getD_getElem?, h]
    rfl
  show (Except.ok (b.nextBlocks.getD ag 0), { b with
    nextBlocks := b.nextBlocks.setIfInBounds ag (b.nextBlocks.getD ag 0 + count) }) = _
  rw [hfront]

theorem run_allocateIn_of_hasRoom (h : b.hasRoom ag count = true) :
    ∃ agBlock b', (allocateIn ag count).run.run b = (.ok (b.address ag agBlock), b') ∧
      b.Took ag count agBlock b' := by
  obtain ⟨agBlock, hnext, hle⟩ := hasRoom_eq_true.mp h
  refine ⟨agBlock, _, ?_, hnext, hle, rfl⟩
  have htake := run_takeBlocks count hnext
  rw [allocateIn, run_bind]
  show ((if (!b.hasRoom ag count) = true then _ else _ : BuildM Nat).run.run b) = _
  rw [h, Bool.not_true, if_neg Bool.false_ne_true, run_bind, htake]
  rfl

/-- Blocks of a group are taken if it has room for them, and nothing is done otherwise. -/
theorem run_allocateIn (ag count : Nat) (b : Builder) :
    (∃ agBlock b', (allocateIn ag count).run.run b = (.ok (b.address ag agBlock), b') ∧
      b.Took ag count agBlock b') ∨
    ∃ e, (allocateIn ag count).run.run b = (.error e, b) := by
  by_cases hroom : b.hasRoom ag count = true
  · exact Or.inl (run_allocateIn_of_hasRoom hroom)
  · refine Or.inr ⟨.groupFull ag count, ?_⟩
    rw [Bool.not_eq_true] at hroom
    rw [allocateIn, run_bind]
    show ((if (!b.hasRoom ag count) = true then _ else _ : BuildM Nat).run.run b) = _
    rw [hroom, Bool.not_false, if_pos rfl]
    rfl

theorem run_get_bind {α : Type} (f : Builder → BuildM α) (b : Builder) :
    (get >>= f).run.run b = (f b).run.run b := rfl

theorem run_allocate (count : Nat) (b : Builder) :
    (∃ ag agBlock b', (allocate count).run.run b = (.ok (b.address ag agBlock), b') ∧
      b.Took ag count agBlock b') ∨
    ∃ e, (allocate count).run.run b = (.error e, b) := by
  rw [allocate, run_get_bind]
  cases (List.range b.options.agCount).find? (b.hasRoom · count) with
  | none => exact Or.inr ⟨.imageFull count, rfl⟩
  | some ag =>
    rcases run_allocateIn ag count b with ⟨agBlock, b', hgives, htook⟩ | herror
    · exact Or.inl ⟨ag, agBlock, b', hgives, htook⟩
    · exact Or.inr herror

theorem exists_hasRoom (hb : b.Sound) (hleft : b.taken < b.options.totalBlocks) :
    ∃ ag, ag < b.options.agCount ∧ b.hasRoom ag 1 = true := by
  by_contra! hfull
  have hall : ∀ next ∈ b.nextBlocks.toList, b.options.agBlocks ≤ next := by
    intro next hin
    obtain ⟨ag, hag⟩ := List.getElem?_of_mem hin
    rw [Array.getElem?_toList] at hag
    obtain ⟨hlt, -⟩ := Array.getElem?_eq_some_iff.mp hag
    rw [hb.groups] at hlt
    have hnone : ¬ next + 1 ≤ b.options.agBlocks := fun hle =>
      hfull ag hlt (hasRoom_eq_true.mpr ⟨next, hag, hle⟩)
    omega
  have hsum := List.card_nsmul_le_sum _ _ hall
  rw [Array.length_toList, hb.groups, Nat.nsmul_eq_mul, Nat.mul_comm] at hsum
  exact absurd hsum (Nat.not_le.mpr hleft)

theorem exists_gives_allocate (hb : b.Sound) (hleft : b.taken < b.options.totalBlocks) :
    ∃ address b', Gives (allocate 1) b address b' := by
  obtain ⟨ag, hlt, hroom⟩ := exists_hasRoom hb hleft
  have hsome : ((List.range b.options.agCount).find? (b.hasRoom · 1)).isSome := by
    rw [List.find?_isSome]
    exact ⟨ag, List.mem_range.mpr hlt, hroom⟩
  obtain ⟨first, hfirst⟩ := Option.isSome_iff_exists.mp hsome
  have hfound : b.hasRoom first 1 = true := by simpa using List.find?_some hfirst
  obtain ⟨agBlock, b', hrun, -⟩ := run_allocateIn_of_hasRoom hfound
  refine ⟨b.address first agBlock, b', ?_⟩
  rw [Gives, allocate, run_get_bind, hfirst]
  exact hrun

theorem took_of_gives {address : Nat} (h : Gives (allocate count) b address b') :
    ∃ ag agBlock, address = b.address ag agBlock ∧ b.Took ag count agBlock b' := by
  rcases run_allocate count b with ⟨ag, agBlock, left, hrun, htook⟩ | ⟨e, hrun⟩
  · rw [Gives, hrun] at h
    cases h
    exact ⟨ag, agBlock, rfl, htook⟩
  · rw [Gives, hrun] at h
    cases h

theorem gives_allocate_first {next : Nat} (hgroups : 0 < b.options.agCount)
    (hnext : b.nextBlocks[0]? = some next) (hroom : next + count ≤ b.options.agBlocks) :
    Gives (allocate count) b next
      { b with nextBlocks := b.nextBlocks.setIfInBounds 0 (next + count) } := by
  have hfits : b.hasRoom 0 count = true := hasRoom_eq_true.mpr ⟨next, hnext, hroom⟩
  have hfirst : (List.range b.options.agCount).find? (b.hasRoom · count) = some 0 := by
    obtain ⟨n, hn⟩ := Nat.exists_eq_succ_of_ne_zero hgroups.ne'
    rw [hn, List.range_succ_eq_map]
    exact List.find?_cons_of_pos hfits
  obtain ⟨agBlock, b', hrun, htook⟩ := run_allocateIn_of_hasRoom hfits
  obtain rfl : agBlock = next := Option.some.inj (htook.next.symm.trans hnext)
  rw [Gives, allocate, run_get_bind, hfirst]
  refine hrun.trans ?_
  rw [htook.after, address, Nat.zero_shiftLeft, Nat.zero_or]

/-- A free slot of the group's inode block is taken, whatever room there is besides. -/
theorem run_reserveIn_next {agBlock slot : Nat}
    (hplace : b.inodeBlocks[ag]? = some (some (agBlock, slot)))
    (hfree : slot < b.options.inodesPerBlock) :
    (reserveIn ag).run.run b =
      (.ok (ag <<< b.options.inodeBits + (agBlock * b.options.inodesPerBlock + slot)),
        { b with inodeBlocks := b.inodeBlocks.setIfInBounds ag (some (agBlock, slot + 1)) }) := by
  have hnext : (b.inodeBlocks[ag]?).join.filter (·.2 < b.options.inodesPerBlock) =
      some (agBlock, slot) := by
    rw [hplace]
    simp [hfree]
  rw [reserveIn, run_get_bind]
  dsimp only
  rw [hnext]
  rfl

/-- A slot is taken from a group, or nothing is done. -/
theorem run_reserveIn (ag : Nat) (b : Builder) :
    (∃ agBlock slot b', (reserveIn ag).run.run b =
        (.ok (ag <<< b.options.inodeBits + (agBlock * b.options.inodesPerBlock + slot)), b') ∧
      b.TookSlot ag agBlock slot b') ∨
    ∃ e, (reserveIn ag).run.run b = (.error e, b) := by
  cases hplace : (b.inodeBlocks[ag]?).join.filter (·.2 < b.options.inodesPerBlock) with
  | some place =>
    obtain ⟨agBlock, slot⟩ := place
    obtain ⟨hjoin, hfree⟩ := Option.filter_eq_some_iff.mp hplace
    refine Or.inl ⟨agBlock, slot, _, ?_, .next (by simpa using hfree)
      (Option.join_eq_some_iff.mp hjoin)⟩
    rw [reserveIn, run_get_bind]
    dsimp only
    rw [hplace]
    rfl
  | none =>
    by_cases hroom : b.hasRoom ag 1 = true
    · obtain ⟨agBlock, hnext, hle⟩ := hasRoom_eq_true.mp hroom
      refine Or.inl ⟨agBlock, 0, _, ?_, .first ⟨hnext, hle, rfl⟩⟩
      have htake := run_takeBlocks 1 hnext
      rw [reserveIn, run_get_bind]
      dsimp only
      rw [hplace]
      dsimp only
      rw [hroom, Bool.not_true, if_neg Bool.false_ne_true, run_bind, htake]
      rfl
    · refine Or.inr ⟨.noInodeRoom ag, ?_⟩
      rw [Bool.not_eq_true] at hroom
      rw [reserveIn, run_get_bind]
      dsimp only
      rw [hplace]
      dsimp only
      rw [hroom, Bool.not_false, if_pos rfl]
      rfl

end BuildM

end XfsVolume
