import XfsVolume.Proofs.Image.Grants
import XfsVolume.Proofs.Image.Finished

/-!
# Histories and the room they hand out

Each step of building a volume is put together from the allocator's answers, so that it is known
what it hands out, whether it succeeds or not (`BuildStep.accounted_run`). A history is recorded
with the rooms that each of its steps handed out (`Builder.Records`). Rooms never overlap, however
the steps are mixed and whichever of them fail, and a step changes no byte outside of its own.
-/

namespace XfsVolume

namespace BuildM

open Builder

variable {α β : Type}

/-- On every volume, it is known what `x` hands out. -/
def Accounted (x : BuildM α) : Prop := ∀ b, ∃ gs, HandsOut x b gs

/-! ## Steps put together -/

theorem accounted_pure (a : α) : Accounted (pure a) := fun _ => ⟨[], .nothing rfl rfl rfl⟩

theorem accounted_throw (e : BuildFault) : Accounted (throw e : BuildM α) :=
  fun _ => ⟨[], .nothing rfl rfl rfl⟩

theorem accounted_liftM (r : Except BuildFault α) : Accounted (liftM r : BuildM α) :=
  fun _ => ⟨[], .nothing rfl rfl rfl⟩

theorem accounted_get : Accounted (get : BuildM Builder) := fun _ => ⟨[], .nothing rfl rfl rfl⟩

theorem accounted_options : Accounted options := fun _ => ⟨[], .nothing rfl rfl rfl⟩

theorem accounted_bind {x : BuildM α} {f : α → BuildM β} (hx : Accounted x)
    (hf : ∀ a, Accounted (f a)) : Accounted (x >>= f) := by
  intro b
  obtain ⟨gs, hfirst⟩ := hx b
  cases hrun : x.run.run b with
  | mk r mid =>
    cases r with
    | ok a =>
      obtain ⟨gs', hrest⟩ := hf a mid
      exact ⟨gs ++ gs', .bind hfirst hrun hrest⟩
    | error e => exact ⟨gs, .fails hfirst (by rw [hrun])⟩

theorem accounted_ite {p : Prop} [Decidable p] {x y : BuildM α} (hx : Accounted x)
    (hy : Accounted y) : Accounted (if p then x else y) := by
  split
  · exact hx
  · exact hy

theorem accounted_guard {p : Prop} [Decidable p] {e : BuildFault} {f : Unit → BuildM α}
    (hf : ∀ u, Accounted (f u)) :
    Accounted (if p then (throw e : BuildM Unit) >>= f else f ()) :=
  accounted_ite (accounted_bind (accounted_throw e) hf) (hf ())

theorem accounted_mapM {f : α → BuildM β} (hf : ∀ a, Accounted (f a)) :
    ∀ l : List α, Accounted (l.mapM f)
  | [] => accounted_pure _
  | a :: l => by
      rw [List.mapM_cons]
      exact accounted_bind (hf a) fun _ =>
        accounted_bind (accounted_mapM hf l) fun _ => accounted_pure _

theorem accounted_foldlM {f : β → α → BuildM β} (hf : ∀ s a, Accounted (f s a)) :
    ∀ (l : List α) (s : β), Accounted (l.foldlM f s)
  | [], _ => accounted_pure _
  | a :: l, s => by
      rw [List.foldlM_cons]
      exact accounted_bind (hf s a) fun _ => accounted_foldlM hf l _

theorem accounted_forIn {f : α → β → BuildM (ForInStep β)} (hf : ∀ a s, Accounted (f a s)) :
    ∀ (l : List α) (s : β), Accounted (forIn l s f)
  | [], _ => accounted_pure _
  | a :: l, s => by
      rw [List.forIn_cons]
      refine accounted_bind (hf a s) fun r => ?_
      cases r with
      | done s => exact accounted_pure _
      | yield s => exact accounted_forIn hf l s

/-! ## Taking room and writing -/

theorem accounted_allocateIn (ag count : Nat) : Accounted (allocateIn ag count) := by
  intro b
  rcases run_allocateIn ag count b with ⟨agBlock, mid, hrun, -⟩ | ⟨e, hrun⟩
  · exact ⟨_, .blocks hrun⟩
  · have hafter : after (allocateIn ag count) b = b := by rw [after, hrun]
    exact ⟨[], .nothing (by rw [hafter]) (by rw [hafter]) (by rw [hafter])⟩

theorem accounted_allocate (count : Nat) : Accounted (allocate count) := by
  rw [allocate]
  refine accounted_bind accounted_get fun b => ?_
  split
  · exact accounted_allocateIn _ count
  · exact accounted_throw _

theorem handsOut_allocate {count address : Nat} {b b' : Builder}
    (h : Gives (allocate count) b address b') :
    HandsOut (allocate count) b [.blocks address count] := by
  rw [allocate] at h ⊢
  obtain ⟨seen, mid, hget, h⟩ := gives_bind.mp h
  have hnothing : HandsOut (get : BuildM Builder) b [] := .nothing rfl rfl rfl
  refine .bind hnothing hget ?_
  split at h
  · exact .blocks h
  · exact (gives_throw.mp h).elim

theorem accounted_reserveIn (ag : Nat) : Accounted (reserveIn ag) := by
  intro b
  rcases run_reserveIn ag b with ⟨agBlock, slot, mid, hrun, -⟩ | ⟨e, hrun⟩
  · exact ⟨_, .slot hrun⟩
  · have hafter : after (reserveIn ag) b = b := by rw [after, hrun]
    exact ⟨[], .nothing (by rw [hafter]) (by rw [hafter]) (by rw [hafter])⟩

theorem accounted_writeAt (off : Nat) (data : ByteArray) : Accounted (writeAt off data) :=
  fun _ => ⟨[], .nothing rfl rfl rfl⟩

theorem accounted_writeBlocks (address : Nat) (data : ByteArray) :
    Accounted (writeBlocks address data) :=
  accounted_bind accounted_options fun _ => accounted_writeAt _ data

theorem accounted_writeInode (ino : Nat) (draft : InodeDraft) :
    Accounted (writeInode ino draft) := by
  rw [writeInode]
  refine accounted_bind accounted_options fun o => accounted_guard fun _ => ?_
  refine accounted_bind accounted_get fun b => accounted_guard fun _ => ?_
  exact accounted_bind (accounted_writeAt _ _) fun _ _ => ⟨[], .nothing rfl rfl rfl⟩

theorem accounted_setRoot (ino : Nat) : Accounted (setRoot ino) :=
  fun _ => ⟨[], .nothing rfl rfl rfl⟩

theorem accounted_addInode (draft : InodeDraft) : Accounted (addInode draft) :=
  accounted_bind (accounted_reserveIn 0) fun ino =>
    accounted_bind (accounted_writeInode ino draft) fun _ => accounted_pure _

/-! ## Forks -/

theorem accounted_writeLevel (owner level : Nat) (chunks : List (List α)) (key : α → Nat)
    (records : List α → List Field) :
    Accounted (writeLevel owner level chunks key records) := by
  rw [writeLevel]
  refine accounted_bind accounted_options fun o => ?_
  refine accounted_bind (accounted_mapM (fun _ => accounted_allocate 1) chunks) fun addresses => ?_
  refine accounted_bind (accounted_forIn (fun x _ => ?_) _ _) fun _ => accounted_pure _
  exact accounted_bind (accounted_writeBlocks _ _) fun _ => accounted_pure _

theorem accounted_writeLevels (owner fanout limit : Nat) : ∀ (fuel height : Nat)
    (links : List TreeLink) (used : Nat),
      Accounted (writeLevels owner fanout limit fuel height links used)
  | 0, _, _, _ => accounted_pure _
  | fuel + 1, height, links, used => by
      rw [writeLevels]
      refine accounted_ite (accounted_pure _) (accounted_bind accounted_options fun o => ?_)
      exact accounted_bind (accounted_writeLevel _ _ _ _ _) fun _ =>
        accounted_writeLevels owner fanout limit fuel _ _ _

theorem accounted_writeTree (owner : Nat) (extents : List Extent) (shape : TreeShape) :
    Accounted (writeTree owner extents shape) := by
  rw [writeTree]
  refine accounted_guard fun _ => accounted_guard fun _ => ?_
  refine accounted_bind accounted_options fun o => ?_
  refine accounted_bind (accounted_writeLevel _ _ _ _ _) fun leaves => ?_
  exact accounted_bind (accounted_writeLevels _ _ _ _ _ _ _) fun _ => accounted_pure _

theorem accounted_writeFork (owner : Nat) (extents : List Extent) (shape : Option TreeShape) :
    Accounted (writeFork owner extents shape) := by
  rw [writeFork]
  exact accounted_bind accounted_options fun o =>
    accounted_ite (accounted_pure _) (accounted_writeTree owner extents _)

/-! ## Files, symlinks and devices -/

theorem accounted_writeFile (ino : Nat) (extents : List Extent) (shape : Option TreeShape)
    (draft : ForkDraft → InodeDraft) : Accounted (do
      let fork ← writeFork ino extents shape
      writeInode ino (draft fork)
      pure ino) :=
  accounted_bind (accounted_writeFork ino extents shape) fun _ =>
    accounted_bind (accounted_writeInode ino _) fun _ => accounted_pure _

theorem accounted_addFile (data : ByteArray) : Accounted (addFile data) := by
  rw [addFile]
  refine accounted_bind (accounted_reserveIn 0) fun ino => ?_
  refine accounted_bind (accounted_liftM _) fun count => accounted_ite ?_ ?_
  · rw [pure_bind]
    exact accounted_writeFile _ _ _ _
  · refine accounted_bind (accounted_allocate _) fun address => ?_
    refine accounted_bind (accounted_writeBlocks _ _) fun _ => ?_
    rw [pure_bind]
    exact accounted_writeFile _ _ _ _

theorem accounted_fillPattern : ∀ (count address logical : Nat),
    Accounted (fillPattern address logical count)
  | 0, _, _ => accounted_pure _
  | count + 1, _, _ =>
      accounted_bind (accounted_writeBlocks _ _) fun _ => accounted_fillPattern count _ _

theorem accounted_patternedExtents : ∀ (drafts : List ExtentDraft) (prevEnd : Option Nat),
    Accounted (patternedExtents prevEnd drafts)
  | [], _ => accounted_pure _
  | e :: rest, prevEnd => by
      rw [patternedExtents]
      refine accounted_guard fun _ => accounted_guard fun _ => ?_
      refine accounted_bind (accounted_allocate _) fun address => ?_
      refine accounted_bind (accounted_fillPattern _ _ _) fun _ => ?_
      exact accounted_bind (accounted_patternedExtents rest _) fun _ => accounted_pure _

theorem accounted_addPatterned (size : Nat) (drafts : List ExtentDraft)
    (shape : Option TreeShape) : Accounted (addPatterned size drafts shape) := by
  rw [addPatterned]
  refine accounted_bind (accounted_reserveIn 0) fun ino => ?_
  refine accounted_bind (accounted_patternedExtents drafts none) fun extents => ?_
  refine accounted_bind (accounted_writeFork ino extents shape) fun fork => ?_
  refine accounted_bind (accounted_liftM _) fun count => ?_
  exact accounted_bind (accounted_writeInode ino _) fun _ => accounted_pure _

theorem accounted_checkTarget (target : ByteArray) : Accounted (checkTarget target) := by
  rw [checkTarget]
  exact accounted_ite (accounted_throw _) (accounted_pure _)

theorem accounted_addInlineLink (target : ByteArray) : Accounted (addInlineLink target) :=
  accounted_bind (accounted_checkTarget target) fun _ => accounted_addInode _

theorem accounted_addBlockLink (target : ByteArray) : Accounted (addBlockLink target) := by
  rw [addBlockLink]
  refine accounted_bind (accounted_checkTarget target) fun _ => ?_
  refine accounted_bind accounted_options fun o => ?_
  refine accounted_bind (accounted_reserveIn 0) fun ino => ?_
  refine accounted_bind (accounted_allocate 1) fun address => ?_
  exact accounted_bind (accounted_writeBlocks _ _) fun _ => accounted_writeFile _ _ _ _

theorem accounted_addLink (target : ByteArray) : Accounted (addLink target) :=
  accounted_bind accounted_options fun _ =>
    accounted_ite (accounted_addInlineLink target) (accounted_addBlockLink target)

/-! ## Directories -/

theorem accounted_draftEntries (entries : List (Name × Nat)) :
    Accounted (draftEntries entries) := by
  rw [draftEntries]
  refine accounted_bind accounted_get fun b => accounted_mapM (fun x => ?_) entries
  exact accounted_guard fun _ => accounted_pure _

theorem accounted_scatterBlock (fileBlock : Nat) (data : ByteArray) : ∀ (count k : Nat)
    (extents : List Extent), Accounted (scatterBlock fileBlock data count k extents)
  | 0, _, _ => accounted_pure _
  | count + 1, k, extents => by
      rw [scatterBlock]
      refine accounted_bind (accounted_allocate 1) fun address => ?_
      refine accounted_bind (accounted_writeBlocks _ _) fun _ => ?_
      exact accounted_bind (accounted_allocate 1) fun _ =>
        accounted_scatterBlock fileBlock data count _ _

theorem accounted_placeBlock (extents : List Extent) (block : Nat × ByteArray) :
    Accounted (placeBlock extents block) := by
  rw [placeBlock]
  refine accounted_bind accounted_options fun o => ?_
  refine accounted_ite (accounted_scatterBlock _ _ _ _ _) ?_
  refine accounted_bind (accounted_allocate _) fun address => ?_
  exact accounted_bind (accounted_writeBlocks _ _) fun _ => accounted_pure _

theorem accounted_placeBlocks (blocks : PlacedBlocks) : Accounted (placeBlocks blocks) :=
  accounted_bind (accounted_foldlM accounted_placeBlock _ _) fun _ => accounted_pure _

theorem accounted_writeDir (ino parent : Nat) (entries : List (Name × Nat))
    (layout : DirLayout) : Accounted (writeDir ino parent entries layout) := by
  rw [writeDir]
  refine accounted_bind (accounted_draftEntries entries) fun drafts => ?_
  refine accounted_bind accounted_options fun o => accounted_ite ?_ ?_
  · exact accounted_bind (accounted_liftM _) fun _ => accounted_writeInode _ _
  · refine accounted_bind (accounted_liftM _) fun made => ?_
    refine accounted_bind (accounted_placeBlocks _) fun extents => ?_
    exact accounted_bind (accounted_writeFork _ _ _) fun _ => accounted_writeInode _ _

theorem accounted_addDir (parent : Nat) (entries : List (Name × Nat)) (layout : DirLayout) :
    Accounted (addDir parent entries layout) :=
  accounted_bind (accounted_reserveIn 0) fun ino =>
    accounted_bind (accounted_writeDir ino parent entries layout) fun _ => accounted_pure _

end BuildM

open BuildM Builder

/-! ## Steps of a history -/

namespace BuildStep

theorem accounted_making {x : BuildM Nat} (hx : Accounted x) : Accounted (making x) :=
  accounted_bind hx fun _ => accounted_pure _

theorem accounted_quiet {α : Type} {x : BuildM α} (hx : Accounted x) : Accounted (quiet x) :=
  accounted_bind hx fun _ => accounted_pure _

theorem accounted_run (s : BuildStep) : Accounted s.run := by
  cases s with
  | allocate count => exact accounted_quiet (accounted_allocate count)
  | allocateIn ag count => exact accounted_quiet (accounted_allocateIn ag count)
  | reserveIn ag => exact accounted_making (accounted_reserveIn ag)
  | writeInode ino draft => exact accounted_quiet (accounted_writeInode ino draft)
  | addFile data => exact accounted_making (accounted_addFile data)
  | addPatterned size drafts shape =>
    exact accounted_making (accounted_addPatterned size drafts shape)
  | addLink target => exact accounted_making (accounted_addLink target)
  | addInlineLink target => exact accounted_making (accounted_addInlineLink target)
  | addBlockLink target => exact accounted_making (accounted_addBlockLink target)
  | addSpecial mode device => exact accounted_making (accounted_addInode _)
  | addDir parent entries layout => exact accounted_making (accounted_addDir parent entries layout)
  | writeDir ino parent entries layout =>
    exact accounted_quiet (accounted_writeDir ino parent entries layout)
  | setRoot ino => exact accounted_quiet (accounted_setRoot ino)

variable {b : Builder} {s : BuildStep} {gs : List Grant}

/-- A byte that a step changes lies in a room that it hands out or in a slot that it is told to
write. -/
theorem holds_of_changed (hb : b.Sound) (h : HandsOut s.run b gs) {i : Nat}
    (hi : byteAt (after s.run b).image i ≠ byteAt b.image i) :
    (∃ g ∈ gs, g.Holds b.options i) ∨ b.options.InSlots s.writes i := by
  obtain ⟨-, hgrows⟩ := s.frames_run b hb
  by_cases htold : b.options.InSlots s.writes i
  · exact Or.inr htold
  · have hnew : ¬ (b.Owns i ∨ ¬ (after s.run b).Owns i) := fun hold => hi (hgrows.keeps hold htold)
    rw [not_or, not_not] at hnew
    exact Or.inl ((((h.granted hb.blank).owns_iff i).mp hnew.2).resolve_left hnew.1)

end BuildStep

/-! ## Histories -/

namespace Builder

/-- `b'` is built from `b` by the steps listed, whichever of them fail, and each of them hands out
the rooms listed with it. -/
inductive Records : Builder → List (BuildStep × List Grant) → Builder → Prop
  | done (b : Builder) : Records b [] b
  | step {b b' : Builder} {s : BuildStep} {gs : List Grant}
      {record : List (BuildStep × List Grant)} (handsOut : HandsOut s.run b gs)
      (later : Records (after s.run b) record b') : Records b ((s, gs) :: record) b'

def rooms (record : List (BuildStep × List Grant)) : List Grant := record.flatMap (·.2)

variable {b b' : Builder} {record : List (BuildStep × List Grant)}

theorem exists_records (steps : List BuildStep) (b : Builder) :
    ∃ record b', record.map Prod.fst = steps ∧ b.Records record b' := by
  induction steps generalizing b with
  | nil => exact ⟨[], b, rfl, .done b⟩
  | cons s steps ih =>
    obtain ⟨gs, hfirst⟩ := s.accounted_run b
    obtain ⟨record, b', hsteps, hlater⟩ := ih (after s.run b)
    exact ⟨(s, gs) :: record, b', by rw [List.map_cons, hsteps], .step hfirst hlater⟩

theorem Records.sound (h : b.Records record b') (hb : b.Sound) : b'.Sound := by
  induction h with
  | done => exact hb
  | step handsOut later ih => exact ih (BuildStep.frames_run _ _ hb).1

/-- The rooms of a history are new, and they are all that it hands out. -/
theorem Records.granted (h : b.Records record b') (hb : b.blank.Sound) :
    b.Granted (rooms record) b' := by
  induction h with
  | done => exact .nothing hb rfl rfl rfl
  | step handsOut later ih =>
    have hfirst := handsOut.granted hb
    exact hfirst.trans (ih hfirst.sound)

/-- A history keeps what was handed out before it, but for the slots that its steps are told to
write. -/
theorem Records.keeps (h : b.Records record b') (hb : b.Sound) {i : Nat} (hi : b.Owns i)
    (htold : ∀ e ∈ record, ¬ b.options.InSlots e.1.writes i) :
    byteAt b'.image i = byteAt b.image i := by
  induction h with
  | done => rfl
  | @step b b' s gs record handsOut later ih =>
    obtain ⟨hsound, hgrows⟩ := s.frames_run b hb
    rw [← hgrows.keeps (Or.inl hi) (htold _ List.mem_cons_self)]
    refine ih hsound (hgrows.owns hi) fun e he => ?_
    rw [hgrows.options]
    exact htold e (List.mem_cons_of_mem _ he)

theorem not_owns_empty (o : ImageOptions) (i : Nat) : ¬ (Builder.empty o).Owns i := by
  rintro ⟨next, hnext, hpos, hlt, -⟩
  rw [Builder.empty, Array.getElem?_replicate] at hnext
  split at hnext
  · cases hnext
    omega
  · cases hnext

/-- Whatever steps are taken on an empty volume, whichever of them fail: no two of the rooms that
were handed out share a byte, each lies inside the image, in one group and behind its headers, and
nothing else was handed out. A step that is taken next changes bytes of its own rooms and of the
slots that it is told to write, and of no others; so what was written to a room stays there until a
step is told to write to it. -/
theorem rooms_apart {o : ImageOptions} {made : Builder} (hmade : ofOptions o = .ok made) :
    (∀ steps : List BuildStep, ∃ record b,
      record.map Prod.fst = steps ∧ made.Records record b) ∧
    ∀ {record b}, made.Records record b →
      (rooms record).Pairwise (Grant.Apart o) ∧
      (∀ g ∈ rooms record, 0 < g.length o →
        g.InGroup o ∧ g.start o + g.length o ≤ b.image.size) ∧
      (∀ i, b.Owns i ↔ ∃ g ∈ rooms record, g.Holds o i) ∧
      (∀ {s : BuildStep} {gs : List Grant}, HandsOut s.run b gs → ∀ {i},
        byteAt (after s.run b).image i ≠ byteAt b.image i →
          (∃ g ∈ gs, g.Holds o i) ∨ o.InSlots s.writes i) ∧
      ∀ {later b'}, b.Records later b' → ∀ g ∈ rooms record, ∀ {i}, g.Holds o i →
        (∀ e ∈ later, ¬ o.InSlots e.1.writes i) → byteAt b'.image i = byteAt b.image i := by
  obtain ⟨haccepted, -, rfl⟩ := ofOptions_eq_ok.mp hmade
  have hempty := sound_empty haccepted
  refine ⟨fun steps => exists_records steps _, fun {record b} hrecord => ?_⟩
  have hb := hrecord.sound hempty
  have hgranted := hrecord.granted hempty.blank
  have hoptions : b.options = o := hgranted.options
  refine ⟨hgranted.apart, fun g hg hlen => ?_, fun i => ?_, ?_, ?_⟩
  · have hin := (hgranted.named g hg).inGroup haccepted hlen
    refine ⟨hin, ?_⟩
    rw [hb.size, hoptions]
    exact hin.stop_le
  · rw [hgranted.owns_iff, or_iff_right (not_owns_empty o i)]
    rfl
  · intro s gs hs i hi
    have hchanged := BuildStep.holds_of_changed hb hs hi
    rwa [hoptions] at hchanged
  · intro later b' hlater g hg i hi htold
    rw [← hoptions] at htold
    exact hlater.keeps hb ((hgranted.owns_iff i).mpr (Or.inr ⟨g, hg, hi⟩)) htold

/-- An inode slot and three blocks of a small volume, and blocks that there is no room for. -/
theorem rooms_apart_small : ∃ o made b, o = { agBlocks := 16, agCount := 1 } ∧
    ofOptions o = .ok made ∧
    made.Records [(.reserveIn 0, [.slot 8]), (.allocate 3, [.blocks 2 3]), (.allocate 20, [])] b ∧
    Grant.Apart o (.slot 8) (.blocks 2 3) ∧ (Grant.blocks 2 3).InGroup o := by
  obtain ⟨o, ho⟩ : ∃ o : ImageOptions, o = { agBlocks := 16, agCount := 1 } := ⟨_, rfl⟩
  have hmade : ofOptions o = .ok (Builder.empty o) := by
    subst ho
    rfl
  obtain ⟨mid, hmid, hgives, -, -⟩ := gives_reserve_small ho
  have hreserve : Gives (reserveIn 0) (Builder.empty o) 8 mid := hgives
  obtain ⟨left, hleft⟩ : ∃ left : Builder, left = { mid with nextBlocks := #[5] } := ⟨_, rfl⟩
  have hallocate : Gives (allocate 3) mid 2 left := by
    subst hleft hmid ho
    rfl
  have hfull : (allocate 20).run.run left = (.error (.imageFull 20), left) := by
    subst hleft hmid ho
    rfl
  have hsame : after (allocate 20) left = left := by rw [after, hfull]
  have hfails : ((allocate 20).run.run left).1 = .error (.imageFull 20) := by rw [hfull]
  have hfirst : after (BuildStep.reserveIn 0).run (Builder.empty o) = mid := hreserve.after_bind
  have hsecond : after (BuildStep.allocate 3).run mid = left := hallocate.after_bind
  have hthird : after (BuildStep.allocate 20).run left = left :=
    (after_bind_of_fails hfails _).trans hsame
  have hrecord : (Builder.empty o).Records
      [(.reserveIn 0, [.slot 8]), (.allocate 3, [.blocks 2 3]), (.allocate 20, [])] left := by
    refine .step (.bind (.slot hreserve) hreserve (.nothing rfl rfl rfl)) ?_
    rw [hfirst]
    refine .step (.bind (handsOut_allocate hallocate) hallocate (.nothing rfl rfl rfl)) ?_
    rw [hsecond]
    refine .step (.fails (.nothing ?_ ?_ ?_) hfails) ?_
    · rw [hsame]
    · rw [hsame]
    · rw [hsame]
    · rw [hthird]
      exact .done left
  obtain ⟨-, hrooms⟩ := rooms_apart hmade
  obtain ⟨hapart, hin, -⟩ := hrooms hrecord
  refine ⟨o, _, _, ho, hmade, hrecord, ?_, ?_⟩
  · exact (List.pairwise_pair).mp hapart
  · exact (hin _ (by simp [rooms]) (Nat.mul_pos (by decide) (by decide))).1

end Builder

end XfsVolume
