import XfsVolume.Proofs.Image.DirectorySteps
import XfsVolume.Proofs.Image.OnMedium
import XfsVolume.Proofs.Image.Superblock

/-!
# Volumes that callers can build

A caller takes steps in any order, and any of them may fail; it writes to inodes whose numbers it
was given. `Builder.Reaches` relates the volumes before and after such a history, each with the
inodes that the caller may write. A step keeps what was handed out before it but for the slots that
it is told to write, and so does a history but for the slots that were the caller's when it began.
A volume that is finished and mounted shows all that was handed out.
-/

namespace XfsVolume

/-- A step that a caller of the builder can take. -/
inductive BuildStep
  | allocate (count : Nat)
  | allocateIn (ag count : Nat)
  | reserveIn (ag : Nat)
  | writeInode (ino : Nat) (draft : InodeDraft)
  | addFile (data : ByteArray)
  | addPatterned (size : Nat) (drafts : List ExtentDraft) (shape : Option TreeShape)
  | addLink (target : ByteArray)
  | addInlineLink (target : ByteArray)
  | addBlockLink (target : ByteArray)
  | addSpecial (mode : UInt16) (device : UInt32)
  | addDir (parent : Nat) (entries : List (Name × Nat)) (layout : DirLayout)
  | writeDir (ino parent : Nat) (entries : List (Name × Nat)) (layout : DirLayout)
  | setRoot (ino : Nat)

namespace BuildStep

def making (x : BuildM Nat) : BuildM (List Nat) := do
  let ino ← x
  return [ino]

def quiet {α : Type} (x : BuildM α) : BuildM (List Nat) := do
  let _ ← x
  return []

/-- Takes the step; the answer is the inodes that it makes. -/
def run : BuildStep → BuildM (List Nat)
  | allocate count => quiet (BuildM.allocate count)
  | allocateIn ag count => quiet (BuildM.allocateIn ag count)
  | reserveIn ag => making (BuildM.reserveIn ag)
  | writeInode ino draft => quiet (BuildM.writeInode ino draft)
  | addFile data => making (BuildM.addFile data)
  | addPatterned size drafts shape => making (BuildM.addPatterned size drafts shape)
  | addLink target => making (BuildM.addLink target)
  | addInlineLink target => making (BuildM.addInlineLink target)
  | addBlockLink target => making (BuildM.addBlockLink target)
  | addSpecial mode device => making (BuildM.addSpecial mode device)
  | addDir parent entries layout => making (BuildM.addDir parent entries layout)
  | writeDir ino parent entries layout => quiet (BuildM.writeDir ino parent entries layout)
  | setRoot ino => quiet (BuildM.setRoot ino)

/-- The inodes that the step is told to write. -/
def writes : BuildStep → List Nat
  | writeInode ino _ | writeDir ino _ _ _ => [ino]
  | _ => []

/-- The inodes that the step makes; a step that fails makes none. -/
def made (s : BuildStep) (b : Builder) : List Nat :=
  match (s.run.run.run b).1 with
  | .ok inos => inos
  | .error _ => []

end BuildStep

/-- Byte `i` lies in the slot of one of the inodes. -/
def ImageOptions.InSlots (o : ImageOptions) (inos : List Nat) (i : Nat) : Prop :=
  ∃ ino ∈ inos, o.InSlot ino i

/-- `b'` is built from `b` by a caller who may write the inodes `inos` when it begins, and `known`
when it has ended. -/
inductive Builder.Reaches (b : Builder) (inos : List Nat) : Builder → List Nat → Prop
  | refl : Reaches b inos b inos
  | step {mid : Builder} {known : List Nat} (before : Reaches b inos mid known) (s : BuildStep)
      (writes : ∀ ino ∈ s.writes, ino ∈ known) :
      Reaches b inos (BuildM.after s.run mid) (s.made mid ++ known)

open BuildM Builder

/-! ## One step -/

namespace BuildStep

variable {b b' : Builder} {spare : Nat → Prop}

theorem frames_making {x : BuildM Nat} (h : MakesInode x) : Frames spare (making x) b :=
  frames_bind (h.frames spare b) fun _ _ _ _ => frames_pure _

theorem frames_quiet {α : Type} {x : BuildM α} (h : Frames spare x b) :
    Frames spare (quiet x) b :=
  frames_bind h fun _ _ _ _ => frames_pure _

theorem gives_of_mem_made {s : BuildStep} {ino : Nat} (h : ino ∈ s.made b) :
    ∃ inos, Gives s.run b inos (after s.run b) ∧ ino ∈ inos := by
  rw [made] at h
  cases hrun : s.run.run.run b with
  | mk r left =>
    rw [hrun] at h
    cases r with
    | error e => cases h
    | ok inos =>
      refine ⟨inos, ?_, h⟩
      rw [after, hrun]
      exact hrun

theorem takes_of_gives_making {x : BuildM Nat} (hx : MakesInode x) (hb : b.Sound)
    {inos : List Nat} (h : Gives (making x) b inos b') {ino : Nat} (hin : ino ∈ inos) {i : Nat}
    (hi : b.options.InSlot ino i) : ¬ b.Owns i ∧ b'.Owns i := by
  obtain ⟨made, mid, hmade, h⟩ := gives_bind.mp h
  obtain ⟨rfl, rfl⟩ := gives_pure.mp h
  rw [List.mem_singleton] at hin
  subst hin
  exact hx.takes hb hmade hi

theorem not_mem_of_gives_quiet {α : Type} {x : BuildM α} {inos : List Nat}
    (h : Gives (quiet x) b inos b') (ino : Nat) : ino ∉ inos := by
  obtain ⟨_, _, -, h⟩ := gives_bind.mp h
  obtain ⟨rfl, -⟩ := gives_pure.mp h
  exact List.not_mem_nil

/-- Steps are of two kinds: those that make an inode and are told to write none, and those that make
none and write to what they are told to. -/
theorem run_cases (s : BuildStep) : (∃ x, s.run = making x ∧ MakesInode x) ∨
    ∃ (α : Type) (x : BuildM α), s.run = quiet x ∧
      ∀ b, Frames (b.options.InSlots s.writes) x b := by
  cases s with
  | allocate count => exact Or.inr ⟨_, _, rfl, fun b => frames_allocate count⟩
  | allocateIn ag count => exact Or.inr ⟨_, _, rfl, fun b => frames_allocateIn ag count⟩
  | reserveIn ag => exact Or.inl ⟨_, rfl, makesInode_reserveIn ag⟩
  | writeInode ino draft =>
    refine Or.inr ⟨_, _, rfl, fun b => frames_writeInode draft fun hi => ?_⟩
    exact ⟨ino, List.mem_singleton_self ino, hi⟩
  | addFile data => exact Or.inl ⟨_, rfl, makesInode_addFile data⟩
  | addPatterned size drafts shape =>
    exact Or.inl ⟨_, rfl, makesInode_addPatterned size drafts shape⟩
  | addLink target => exact Or.inl ⟨_, rfl, makesInode_addLink target⟩
  | addInlineLink target => exact Or.inl ⟨_, rfl, makesInode_addInlineLink target⟩
  | addBlockLink target => exact Or.inl ⟨_, rfl, makesInode_addBlockLink target⟩
  | addSpecial mode device => exact Or.inl ⟨_, rfl, makesInode_addSpecial mode device⟩
  | addDir parent entries layout =>
    exact Or.inl ⟨_, rfl, makesInode_addDir parent entries layout⟩
  | writeDir ino parent entries layout =>
    refine Or.inr ⟨_, _, rfl, fun b => frames_writeDir fun hi => ?_⟩
    exact ⟨ino, List.mem_singleton_self ino, hi⟩
  | setRoot ino => exact Or.inr ⟨_, _, rfl, fun b => frames_setRoot ino⟩

theorem frames_run (s : BuildStep) (b : Builder) :
    Frames (b.options.InSlots s.writes) s.run b := by
  rcases s.run_cases with ⟨x, hrun, hx⟩ | ⟨α, x, hrun, hx⟩
  · rw [hrun]
    exact frames_making hx
  · rw [hrun]
    exact frames_quiet (hx b)

theorem takes_made (s : BuildStep) (hb : b.Sound) {ino : Nat} (hin : ino ∈ s.made b) {i : Nat}
    (hi : b.options.InSlot ino i) : ¬ b.Owns i ∧ (after s.run b).Owns i := by
  obtain ⟨inos, hgives, hin⟩ := gives_of_mem_made hin
  rcases s.run_cases with ⟨x, hrun, hx⟩ | ⟨α, x, hrun, -⟩
  · rw [hrun] at hgives ⊢
    exact takes_of_gives_making hx hb hgives hin hi
  · rw [hrun] at hgives
    exact absurd hin (not_mem_of_gives_quiet hgives ino)

end BuildStep

/-! ## Histories -/

namespace Builder

variable {b b' : Builder} {inos known : List Nat}

/-- What a history keeps: all that was handed out but for the slots that were the caller's when it
began. The slots that are the caller's when it has ended were the caller's before, or free. -/
structure Kept (b : Builder) (inos : List Nat) (b' : Builder) (known : List Nat) : Prop where
  sound : b'.Sound
  grows : b.Grows (b.options.InSlots inos) b'
  owned : ∀ ino ∈ known, ∀ {i}, b.options.InSlot ino i → b'.Owns i
  known : ∀ ino ∈ known, ino ∈ inos ∨ ∀ {i}, b.options.InSlot ino i → ¬ b.Owns i

theorem Kept.refl (hb : b.Sound)
    (howned : ∀ ino ∈ inos, ∀ {i}, b.options.InSlot ino i → b.Owns i) : b.Kept inos b inos :=
  ⟨hb, .refl b, howned, fun _ hin => Or.inl hin⟩

theorem Kept.step (h : b.Kept inos b' known) {s : BuildStep}
    (hs : ∀ ino ∈ s.writes, ino ∈ known) :
    b.Kept inos (after s.run b') (s.made b' ++ known) := by
  obtain ⟨hsound, hgrows⟩ := s.frames_run b' h.sound
  have hoptions := h.grows.options
  have hmade : ∀ ino ∈ s.made b', ∀ {i}, b.options.InSlot ino i →
      ¬ b'.Owns i ∧ (after s.run b').Owns i := by
    intro ino hin i hi
    rw [← hoptions] at hi
    exact s.takes_made h.sound hin hi
  -- a slot that the step writes was the caller's, or was taken on the way
  have hwritten : b'.Grows (fun i => b.options.InSlots inos i ∨ ¬ b.Owns i ∧ b'.Owns i)
      (after s.run b') := by
    refine hgrows.mono fun i hi => ?_
    obtain ⟨ino, hin, hi⟩ := hi
    rw [hoptions] at hi
    rcases h.known ino (hs ino hin) with hmine | hfree
    · exact Or.inl ⟨ino, hmine, hi⟩
    · exact Or.inr ⟨hfree hi, h.owned ino (hs ino hin) hi⟩
  refine ⟨hsound, ?_, ?_, ?_⟩
  · exact h.grows.absorb hwritten (fun hi => hi.1) fun hi => hi.2
  · intro ino hin i hi
    rcases List.mem_append.mp hin with hin | hin
    · exact (hmade ino hin hi).2
    · exact hgrows.owns (h.owned ino hin hi)
  · intro ino hin
    rcases List.mem_append.mp hin with hin | hin
    · exact Or.inr fun hi hown => (hmade ino hin hi).1 (h.grows.owns hown)
    · exact h.known ino hin

/-- Whatever steps a caller takes, and whichever of them fail. -/
theorem Reaches.kept (h : b.Reaches inos b' known) (hb : b.Sound)
    (howned : ∀ ino ∈ inos, ∀ {i}, b.options.InSlot ino i → b.Owns i) :
    b.Kept inos b' known := by
  induction h with
  | refl => exact Kept.refl hb howned
  | step _ s writes ih => exact ih.step writes

end Builder

end XfsVolume
