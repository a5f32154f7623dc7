import XfsVolume.Proofs.Image.Frames

/-!
# Room that was handed out

The builder hands out runs of blocks and inode slots. What a step hands out is collected from the
answers of the allocator on the way, up to the point where the step fails (`HandsOut`). All of it
was free before, no two of its rooms share a byte, and it is what was handed out anew: a byte that
was handed out after the step was so before it, or lies in one of the rooms (`HandsOut.granted`).

Nothing here depends on what the image holds, so that the volume may be taken to be blank.
-/

namespace XfsVolume

/-- Room that the builder hands out: adjoining blocks, or the slot of an inode. -/
inductive Grant
  | blocks (address count : Nat)
  | slot (ino : Nat)

namespace Grant

def start (o : ImageOptions) : Grant → Nat
  | blocks address _ => o.blockOffset address
  | slot ino => o.inodeOffset ino

/-- Length of the room; that of no blocks is empty. -/
def length (o : ImageOptions) : Grant → Nat
  | blocks _ count => count * imageBlockSize
  | slot _ => o.inodeSize

def Holds (o : ImageOptions) (g : Grant) (i : Nat) : Prop :=
  g.start o ≤ i ∧ i < g.start o + g.length o

def Apart (o : ImageOptions) (g g' : Grant) : Prop := ∀ i, g.Holds o i → ¬ g'.Holds o i

/-- The room lies in one group, behind the block of the group's headers. -/
def InGroup (o : ImageOptions) (g : Grant) : Prop :=
  ∃ ag < o.agCount, (ag * o.agBlocks + 1) * imageBlockSize ≤ g.start o ∧
    g.start o + g.length o ≤ (ag + 1) * o.agBlocks * imageBlockSize

/-- The room is a run of a group's blocks, unless it is empty, or a slot of one of its inode
blocks. -/
def Named (o : ImageOptions) : Grant → Prop
  | blocks address count => 0 < count → ∃ ag agBlock, o.Run address count ag agBlock
  | slot ino => ∃ ag agBlock index, o.Slot ino ag agBlock index

variable {o : ImageOptions} {g : Grant} {address count ino ag agBlock slotIndex : Nat}

/-- A group ends inside the volume. -/
theorem InGroup.stop_le (h : g.InGroup o) :
    g.start o + g.length o ≤ o.totalBlocks * imageBlockSize := by
  obtain ⟨ag, hag, -, hstop⟩ := h
  have hgroups : (ag + 1) * o.agBlocks ≤ o.totalBlocks := by
    rw [ImageOptions.totalBlocks, Nat.mul_comm o.agBlocks]
    exact Nat.mul_le_mul_right _ hag
  exact hstop.trans (Nat.mul_le_mul_right _ hgroups)

theorem inGroup_blocks (h : o.Run address count ag agBlock) (hc : 0 < count) :
    (blocks address count).InGroup o := by
  have hstart : (blocks address count).start o = (ag * o.agBlocks + agBlock) * imageBlockSize :=
    h.blockOffset_eq hc
  have hroom := h.room
  refine ⟨ag, h.group, ?_, ?_⟩
  · rw [hstart]
    exact Nat.mul_le_mul_right _ (Nat.add_le_add_left h.afterHeaders _)
  · rw [hstart, length, ← Nat.add_mul, Nat.add_mul ag, Nat.one_mul]
    exact Nat.mul_le_mul_right _ (by omega)

theorem inGroup_slot (h : o.Slot ino ag agBlock slotIndex) (ho : o.Accepted) :
    (slot ino).InGroup o := by
  have hstart : (slot ino).start o =
      (ag * o.agBlocks + agBlock) * imageBlockSize + slotIndex * o.inodeSize := h.inodeOffset_eq ho
  have hstop := h.stop_le ho
  have htail := unit_stop_le imageBlockSize (digits_lt (Nat.lt_add_one ag) h.room)
  refine ⟨ag, h.group, ?_, ?_⟩
  · rw [hstart]
    exact Nat.le_add_right_of_le
      (Nat.mul_le_mul_right _ (Nat.add_le_add_left h.afterHeaders _))
  · rw [hstart, length]
    omega

theorem Named.inGroup (h : g.Named o) (ho : o.Accepted) (hlen : 0 < g.length o) : g.InGroup o := by
  cases g with
  | blocks address count =>
    have hc : 0 < count := Nat.pos_of_mul_pos_right hlen
    obtain ⟨ag, agBlock, hrun⟩ := h hc
    exact inGroup_blocks hrun hc
  | slot ino =>
    obtain ⟨ag, agBlock, index, hslot⟩ := h
    exact inGroup_slot hslot ho

end Grant

/-! ## Bytes and their places -/

namespace ImageOptions

variable {o : ImageOptions} {address count ino ag agBlock slot : Nat}

theorem exists_place (ho : o.Accepted) (i : Nat) : ∃ ag agBlock r, agBlock < o.agBlocks ∧
    r < imageBlockSize ∧ i = o.volumeBlock ag agBlock * imageBlockSize + r := by
  have hgroup : 0 < o.agBlocks := by
    have := ho.agBlocks
    omega
  refine ⟨i / imageBlockSize / o.agBlocks, i / imageBlockSize % o.agBlocks, i % imageBlockSize,
    Nat.mod_lt _ hgroup, Nat.mod_lt _ (by decide), ?_⟩
  rw [volumeBlock, Nat.div_add_mod', Nat.div_add_mod']

theorem Run.inBlocks_place (h : o.Run address count ag agBlock) {block r : Nat}
    (hlow : agBlock ≤ block) (hhigh : block < agBlock + count) (hr : r < imageBlockSize) :
    o.InBlocks address count (o.volumeBlock ag block * imageBlockSize + r) := by
  obtain ⟨k, rfl⟩ := Nat.exists_eq_add_of_le hlow
  have hlast : k * imageBlockSize + imageBlockSize ≤ count * imageBlockSize :=
    unit_stop_le imageBlockSize (by omega)
  rw [InBlocks, h.blockOffset_eq (by omega), volumeBlock_add, Nat.add_mul]
  omega

theorem Slot.inSlot_place (h : o.Slot ino ag agBlock slot) (ho : o.Accepted) {r : Nat}
    (hlow : slot * o.inodeSize ≤ r) (hhigh : r < (slot + 1) * o.inodeSize) :
    o.InSlot ino (o.volumeBlock ag agBlock * imageBlockSize + r) := by
  rw [Nat.add_mul, Nat.one_mul] at hhigh
  rw [InSlot, h.inodeOffset_eq ho]
  omega

end ImageOptions

/-! ## What the allocator hands out anew -/

namespace Builder

variable {b b' : Builder} {ag count agBlock slot : Nat}

theorem Took.owns_iff (h : b.Took ag count agBlock b') (hb : b.Sound) (i : Nat) :
    b'.Owns i ↔ b.Owns i ∨ b.options.InBlocks (b.address ag agBlock) count i := by
  have hgrows : b.Grows (fun _ => False) b' := h.grows
  refine ⟨fun hi => ?_, fun hi => hi.elim hgrows.owns (h.owned hb)⟩
  obtain ⟨other, block, r, hblock, hr, rfl⟩ := b.options.exists_place hb.accepted i
  have hslots : b'.inodeBlocks = b.inodeBlocks := by rw [h.after]
  rw [← h.options] at hblock hi
  rw [owns_place hblock hr, h.front, hslots, h.options] at hi
  rw [h.options] at hblock
  rw [owns_place hblock hr]
  obtain ⟨next, hnext, hpos, hlt, hfree⟩ := hi
  by_cases heq : ag = other
  · subst heq
    rw [if_pos rfl] at hnext
    cases hnext
    by_cases hbefore : block < agBlock
    · exact Or.inl ⟨agBlock, h.next, hpos, hbefore, hfree⟩
    · have hrun := h.run hb (by omega)
      exact Or.inr (hrun.inBlocks_place (Nat.not_lt.mp hbefore) hlt hr)
  · rw [if_neg heq] at hnext
    exact Or.inl ⟨next, hnext, hpos, hlt, hfree⟩

/-- Taking a slot hands out that slot and nothing else, for an inode block is left only when its
slots are used up. -/
theorem TookSlot.owns_iff (h : b.TookSlot ag agBlock slot b') (hb : b.Sound)
    (hfull : ∀ {old used}, b.inodeBlocks[ag]? = some (some (old, used)) →
      old = agBlock ∨ b.options.inodesPerBlock ≤ used) (i : Nat) :
    b'.Owns i ↔ b.Owns i ∨ b.options.InSlot
      (ag <<< b.options.inodeBits + (agBlock * b.options.inodesPerBlock + slot)) i := by
  have hat := h.slotAt hb
  have hgrows : b.Grows (fun _ => False) b' := h.grows hb
  refine ⟨fun hi => ?_, fun hi => hi.elim hgrows.owns (h.owned hb)⟩
  obtain ⟨other, block, r, hblock, hr, rfl⟩ := b.options.exists_place hb.accepted i
  rw [← h.options] at hblock hi
  rw [owns_place hblock hr, h.inodeBlocks hb, h.options] at hi
  rw [h.options] at hblock
  rw [owns_place hblock hr]
  obtain ⟨next, hnext, hpos, hlt, hfree⟩ := hi
  obtain ⟨-, hothers⟩ := h.fronts hb
  by_cases heq : ag = other
  · subst heq
    rw [if_pos rfl] at hfree
    by_cases hsame : block = agBlock
    · subst hsame
      have hhigh := hfree block (slot + 1) rfl rfl
      by_cases hlow : slot * b.options.inodeSize ≤ r
      · exact Or.inr (hat.inSlot_place hb.accepted hlow hhigh)
      · cases h with
        | next free place =>
          refine Or.inl ⟨next, hnext, hpos, hlt, fun old used hold _ => ?_⟩
          rw [place] at hold
          cases hold
          exact Nat.not_le.mp hlow
        | first took => omega
    · refine Or.inl ?_
      have hused : ∀ old used, b.inodeBlocks[ag]? = some (some (old, used)) → block = old →
          r < used * b.options.inodeSize := by
        rintro old used hold rfl
        have hper := (hfull hold).resolve_left hsame
        have hmul := Nat.mul_le_mul_right b.options.inodeSize hper
        rw [hb.accepted.inodes_fill] at hmul
        omega
      rcases hothers ag with hfront | ⟨-, -, hbefore, hafter⟩
      · exact ⟨next, by rw [← hfront, hnext], hpos, hlt, hused⟩
      · rw [hafter] at hnext
        cases hnext
        exact ⟨agBlock, hbefore, hpos, by omega, hused⟩
  · rw [if_neg heq] at hfree
    rcases hothers other with hfront | ⟨hag, -⟩
    · exact Or.inl ⟨next, by rw [← hfront, hnext], hpos, hlt, hfree⟩
    · exact absurd hag heq

/-- The volume with nothing written to it. -/
def blank (b : Builder) : Builder :=
  { b with image := zeros (b.options.totalBlocks * imageBlockSize) }

theorem Sound.blank (h : b.Sound) : b.blank.Sound :=
  ⟨h.accepted, size_zeros _, h.groups, h.inodeGroups, h.fronts, h.slots⟩

theorem Took.blank (h : b.Took ag count agBlock b') : b.blank.Took ag count agBlock b'.blank where
  next := h.next
  room := h.room
  after := by
    rw [h.after]
    rfl

theorem TookSlot.blank (h : b.TookSlot ag agBlock slot b') :
    b.blank.TookSlot ag agBlock slot b'.blank := by
  cases h with
  | next free place => exact .next free place
  | first took => exact .first took.blank

/-- `b'` is `b` after the rooms were handed out. They were free, they have no byte in common, each
is named by its address or number, and nothing else was handed out. -/
structure Granted (b : Builder) (gs : List Grant) (b' : Builder) : Prop where
  sound : b'.blank.Sound
  options : b'.options = b.options
  named : ∀ g ∈ gs, g.Named b.options
  free : ∀ g ∈ gs, ∀ i, g.Holds b.options i → ¬ b.Owns i
  owns_iff : ∀ i, b'.Owns i ↔ b.Owns i ∨ ∃ g ∈ gs, g.Holds b.options i
  apart : gs.Pairwise (Grant.Apart b.options)

variable {b'' : Builder} {gs gs' : List Grant}

theorem Granted.nothing (hb : b.blank.Sound) (ho : b'.options = b.options)
    (hnext : b'.nextBlocks = b.nextBlocks) (hslots : b'.inodeBlocks = b.inodeBlocks) :
    b.Granted [] b' := by
  refine ⟨?_, ho, by simp, by simp, fun i => ?_, List.Pairwise.nil⟩
  · refine ⟨?_, size_zeros _, ?_, ?_, ?_, ?_⟩
    · rw [Builder.blank, ho]
      exact hb.accepted
    · rw [Builder.blank, ho, hnext]
      exact hb.groups
    · rw [Builder.blank, ho, hslots]
      exact hb.inodeGroups
    · rw [Builder.blank, ho, hnext]
      exact hb.fronts
    · rw [Builder.blank, ho, hnext, hslots]
      exact hb.slots
  · rw [Owns, ho, hnext, hslots]
    simp [Owns]

theorem Granted.trans (h : b.Granted gs b') (h' : b'.Granted gs' b'') :
    b.Granted (gs ++ gs') b'' := by
  have hnamed := h'.named
  have hfree := h'.free
  have howns := h'.owns_iff
  have hapart := h'.apart
  rw [h.options] at hnamed hfree howns hapart
  refine ⟨h'.sound, h'.options.trans h.options, ?_, ?_, fun i => ?_, ?_⟩
  · intro g hg
    rcases List.mem_append.mp hg with hg | hg
    · exact h.named g hg
    · exact hnamed g hg
  · intro g hg i hi
    rcases List.mem_append.mp hg with hg | hg
    · exact h.free g hg i hi
    · exact fun hown => hfree g hg i hi ((h.owns_iff i).mpr (Or.inl hown))
  · simp only [howns, h.owns_iff, List.mem_append, or_and_right, exists_or, or_assoc]
  · refine List.pairwise_append.mpr ⟨h.apart, hapart, fun g hg g' hg' i hi hi' => ?_⟩
    exact hfree g' hg' i hi' ((h.owns_iff i).mpr (Or.inr ⟨g, hg, hi⟩))

/-- A single room. -/
theorem Granted.single {g : Grant} (hsound : b'.blank.Sound) (ho : b'.options = b.options)
    (hnamed : g.Named b.options)
    (hfree : ∀ {i}, g.Holds b.options i → ¬ b.Owns i)
    (howns : ∀ i, b'.Owns i ↔ b.Owns i ∨ g.Holds b.options i) : b.Granted [g] b' := by
  refine ⟨hsound, ho, ?_, ?_, ?_, List.pairwise_singleton _ _⟩
  · simpa using hnamed
  · simpa using fun i => hfree
  · simpa using howns

theorem Took.granted (h : b.Took ag count agBlock b') (hb : b.blank.Sound) :
    b.Granted [.blocks (b.address ag agBlock) count] b' :=
  .single (h.blank.sound hb) h.options (fun hc => ⟨ag, agBlock, h.blank.run hb hc⟩)
    (h.blank.free hb) (h.blank.owns_iff hb)

theorem TookSlot.granted (h : b.TookSlot ag agBlock slot b') (hb : b.blank.Sound)
    (hfull : ∀ {old used}, b.inodeBlocks[ag]? = some (some (old, used)) →
      old = agBlock ∨ b.options.inodesPerBlock ≤ used) :
    b.Granted
      [.slot (ag <<< b.options.inodeBits + (agBlock * b.options.inodesPerBlock + slot))] b' :=
  .single (h.blank.sound hb) h.options ⟨ag, agBlock, slot, h.blank.slotAt hb⟩
    (h.blank.free hb) (h.blank.owns_iff hb hfull)

end Builder

/-! ## What a step hands out -/

namespace BuildM

open Builder

variable {α : Type} {b b' : Builder} {gs : List Grant} {ag count address ino : Nat}

theorem tookIn_of_gives (h : Gives (allocateIn ag count) b address b') :
    ∃ agBlock, address = b.address ag agBlock ∧ b.Took ag count agBlock b' := by
  rcases run_allocateIn ag count b with ⟨agBlock, left, hrun, htook⟩ | ⟨e, hrun⟩
  · rw [Gives, hrun] at h
    cases h
    exact ⟨agBlock, rfl, htook⟩
  · rw [Gives, hrun] at h
    cases h

theorem tookSlot_of_gives (h : Gives (reserveIn ag) b ino b') : ∃ agBlock slot,
    ino = ag <<< b.options.inodeBits + (agBlock * b.options.inodesPerBlock + slot) ∧
      b.TookSlot ag agBlock slot b' ∧
      ∀ {old used}, b.inodeBlocks[ag]? = some (some (old, used)) →
        old = agBlock ∨ b.options.inodesPerBlock ≤ used := by
  rcases run_reserveIn ag b with ⟨agBlock, slot, left, hrun, htook⟩ | ⟨e, hrun⟩
  · rw [Gives, hrun] at h
    cases h
    refine ⟨agBlock, slot, rfl, htook, fun {old used} hold => ?_⟩
    by_cases hused : used < b.options.inodesPerBlock
    · have hnext := run_reserveIn_next hold hused
      rw [hrun] at hnext
      cases htook with
      | next free place =>
        rw [place] at hold
        cases hold
        exact Or.inl rfl
      | first took =>
        have hfront := took.front ag
        have hsame := congrArg (fun r => r.2.nextBlocks[ag]?) hnext
        dsimp only at hsame
        rw [hfront, if_pos rfl, took.next] at hsame
        simp at hsame
    · exact Or.inr (Nat.not_lt.mp hused)
  · rw [Gives, hrun] at h
    cases h

/-- `x` hands out the rooms on `b`, whether it succeeds or not: those that the allocator answers
with, in the order of its answers. A step that moves no front and takes no slot hands out none. -/
inductive HandsOut : {α : Type} → BuildM α → Builder → List Grant → Prop
  | nothing {α : Type} {x : BuildM α} {b : Builder} (options : (after x b).options = b.options)
      (nextBlocks : (after x b).nextBlocks = b.nextBlocks)
      (inodeBlocks : (after x b).inodeBlocks = b.inodeBlocks) : HandsOut x b []
  | blocks {ag count address : Nat} {b b' : Builder}
      (gives : Gives (allocateIn ag count) b address b') :
      HandsOut (allocateIn ag count) b [.blocks address count]
  | slot {ag ino : Nat} {b b' : Builder} (gives : Gives (reserveIn ag) b ino b') :
      HandsOut (reserveIn ag) b [.slot ino]
  | bind {α β : Type} {x : BuildM α} {f : α → BuildM β} {a : α} {b mid : Builder}
      {gs gs' : List Grant} (first : HandsOut x b gs) (gives : Gives x b a mid)
      (rest : HandsOut (f a) mid gs') : HandsOut (x >>= f) b (gs ++ gs')
  | fails {α β : Type} {x : BuildM α} {f : α → BuildM β} {e : BuildFault} {b : Builder}
      {gs : List Grant} (first : HandsOut x b gs) (fails : (x.run.run b).1 = .error e) :
      HandsOut (x >>= f) b gs

theorem Gives.after_bind {β : Type} {x : BuildM α} {f : α → BuildM β} {a : α}
    (h : Gives x b a b') : after (x >>= f) b = after (f a) b' := by
  rw [Gives] at h
  rw [after, run_bind, h]
  rfl

theorem after_bind_of_fails {β : Type} {x : BuildM α} {e : BuildFault}
    (h : (x.run.run b).1 = .error e) (f : α → BuildM β) : after (x >>= f) b = after x b := by
  rw [after, run_bind, after]
  cases hx : x.run.run b with
  | mk r left =>
    rw [hx] at h
    cases h
    rfl

/-- The rooms that a step hands out are new, and they are all that it hands out. -/
theorem HandsOut.granted {x : BuildM α} (h : HandsOut x b gs) (hb : b.blank.Sound) :
    b.Granted gs (after x b) := by
  induction h with
  | nothing options nextBlocks inodeBlocks =>
    exact .nothing hb options nextBlocks inodeBlocks
  | blocks gives =>
    obtain ⟨agBlock, rfl, htook⟩ := tookIn_of_gives gives
    rw [gives.after_eq]
    exact htook.granted hb
  | slot gives =>
    obtain ⟨agBlock, slot, rfl, htook, hfull⟩ := tookSlot_of_gives gives
    rw [gives.after_eq]
    exact htook.granted hb hfull
  | bind first gives rest ihFirst ihRest =>
    have hfirst := ihFirst hb
    rw [gives.after_eq] at hfirst
    rw [gives.after_bind]
    exact hfirst.trans (ihRest hfirst.sound)
  | fails first fails ih =>
    rw [after_bind_of_fails fails]
    exact ih hb

end BuildM

end XfsVolume
