import XfsVolume.Proofs.Image.Forks
import XfsVolume.Proofs.Image.InodeOnMedium

/-!
# Inodes of directories, files and symlinks with blocks

What has blocks is written as a fork, which goes into a tree where its extents are too many for a
list, and then an inode that holds the fork. What is read back is an inode of the kind that was
asked for, and its fork holds the extents (`BuildM.mappedInode_spec`).
-/

namespace XfsVolume

theorem ImageOptions.Accepted.treeLevel_full_lt {o : ImageOptions} (ho : o.Accepted) {n : Nat}
    (h : n < 2 ^ 32) : o.treeLevel .full n < maxTreeDepth := by
  have hroom := o.nodeHeader_le
  have hliteral := ho.literalLength_ge.1
  have hroot : 4 ≤ o.rootRoom := by
    rw [rootRoom]
    omega
  have hfull : ∀ room, room ≤ 254 → min (wordLimit - 1) room = room := by
    intro room hle
    rw [wordLimit, UInt64.size]
    omega
  have hleaves : blocksFor n o.nodeRoom ≤ n :=
    blocksFor_le (by omega) (Nat.le_mul_of_pos_right n (by omega))
  have hpow : 251 ^ 4 ≤ o.nodeRoom ^ 4 := Nat.pow_le_pow_left (by omega) 4
  have hlimit : 4 * 251 ^ 4 ≤ min o.nodeRoom o.rootRoom * o.nodeRoom ^ 4 :=
    Nat.mul_le_mul (by omega) hpow
  have hlevels : levelsAbove o.nodeRoom (min o.nodeRoom o.rootRoom) (blocksFor n o.nodeRoom)
      (blocksFor n o.nodeRoom) ≤ 4 := levelsAbove_le (by omega) (by omega)
  rw [treeLevel, TreeShape.full]
  dsimp only
  rw [hfull _ hroom.2.2.2, maxTreeDepth]
  omega

namespace BuildM

open Builder

variable {m : Medium} {b b' left : Builder} {spare : Nat → Prop} {ino owner : Nat}
  {extents : List Extent} {shape : Option TreeShape} {fork : ForkDraft} {draft : InodeDraft}
  {u : Unit}

theorem format_of_writeFork (h : Gives (writeFork owner extents shape) b fork b') :
    fork.format = .extents ∧ extents.length * 16 ≤ b.options.literalLength ∨
      fork.format = .btree := by
  rw [writeFork, gives_options_bind, gives_ite] at h
  split at h
  · rename_i hinline
    obtain ⟨rfl, -⟩ := gives_pure.mp h
    rw [Bool.and_eq_true, decide_eq_true_eq] at hinline
    exact Or.inl ⟨rfl, hinline.2⟩
  · rw [writeTree, gives_guard, gives_guard, gives_options_bind] at h
    obtain ⟨-, -, h⟩ := h
    obtain ⟨leaves, _, -, h⟩ := gives_bind.mp h
    obtain ⟨⟨height, links, used⟩, _, -, h⟩ := gives_bind.mp h
    obtain ⟨rfl, -⟩ := gives_pure.mp h
    exact Or.inr rfl

/-- Extents that fit the inode are listed in it. -/
theorem gives_writeFork_list (h : extents.length * 16 ≤ b.options.literalLength) :
    Gives (writeFork owner extents none) b
      { format := .extents
        bytes := (extents.flatMap Extent.encode).toByteArray
        treeBlocks := 0 } b := by
  rw [writeFork, gives_options_bind, gives_ite, if_pos (by simpa using h)]
  exact gives_pure.mpr ⟨rfl, rfl⟩

/-! ## The inode behind its fork -/

/-- What keeps the volume with the inode keeps the one before its fork was written, but for the slot
of the inode. -/
theorem keeps_of_writeMapped (hb : b.Sound)
    (hfork : Gives (writeFork ino extents shape) b fork left)
    (h : Gives (writeInode ino draft) left u b') (hk : m.Keeps spare b') :
    m.Keeps (fun i => spare i ∨ b.options.InSlot ino i) left ∧
      m.Keeps (fun i => spare i ∨ b.options.InSlot ino i) b := by
  have hforkFrame : Frames (fun _ => False) (writeFork ino extents shape) b :=
    frames_writeFork ino extents shape
  obtain ⟨hleft, hgrows⟩ := hforkFrame.of_gives hb hfork
  have hwriteFrame : Frames (b.options.InSlot ino) (writeInode ino draft) left := by
    rw [← hgrows.options]
    exact frames_writeInode draft id
  have hkLeft := hk.back (hwriteFrame.of_gives hleft h).2
  exact ⟨hkLeft, hkLeft.before hgrows⟩

/-- An inode that is written behind its fork is read back, and its fork holds the extents. The fork
takes no blocks that the volume does not have. -/
theorem mappedInode_spec (hb : b.Sound) (horder : InOrder extents)
    (hfew : extents.length < UInt32.size)
    (hlevel : ∀ s, shape = some s → b.options.treeLevel s extents.length < maxTreeDepth)
    (hfork : Gives (writeFork ino extents shape) b fork left)
    (h : Gives (writeInode ino draft) left u b') (hformat : draft.format = fork.format)
    (hbytes : draft.fork = fork.bytes) (hcount : draft.extents = extents.length)
    (hsuits : ∀ {format : ForkFormat}, format.isMapped = true →
      Inode.formatSuits (FileKind.ofMode draft.mode) format = true)
    (hk : m.Keeps spare b') (hs : ∀ {i}, spare i → b.Owns i)
    (hslot : ∃ ag agBlock slot, b.options.Slot ino ag agBlock slot)
    (hown : ∀ {i}, b.options.InSlot ino i → b.Owns i ∧ ¬ spare i) :
    m.readInode ino = .ok (draft.decoded b.options ino) ∧
      m.ForkHolds (draft.decoded b.options ino) extents ∧
      b.taken + fork.treeBlocks ≤ b.options.totalBlocks := by
  have ho := hb.accepted
  have hliteral := ho.literalLength_ge
  have hforkFrame : Frames (fun _ => False) (writeFork ino extents shape) b :=
    frames_writeFork ino extents shape
  obtain ⟨hleft, hgrows⟩ := hforkFrame.of_gives hb hfork
  have hoptions := hgrows.options
  obtain ⟨hkLeft, -⟩ := keeps_of_writeMapped hb hfork h hk
  have hlow : b.options.treeLevel (shape.getD .full) extents.length < maxTreeDepth := by
    cases shape with
    | none =>
      rw [UInt32.size] at hfew
      exact ho.treeLevel_full_lt hfew
    | some s => exact hlevel s rfl
  obtain ⟨hroom, htaken, hholds⟩ := writeFork_spec hb horder hlow hfork hkLeft fun hi =>
    hi.elim hs fun hin => (hown hin).1
  have hextents : (draft.decoded b.options ino).extents.toNat = extents.length := by
    rw [← hcount] at hfew ⊢
    exact InodeDraft.toNat_extents_decoded _ _ hfew
  have hstored : (draft.decoded b.options ino).fork =
      overwrite (zeros b.options.literalLength) 0 fork.bytes := by
    rw [← hbytes]
    rfl
  have hsize : (draft.decoded b.options ino).fork.size = b.options.literalLength :=
    InodeDraft.size_fork_decoded ino (by rw [hbytes]; exact hroom)
  have hmapped {format : ForkFormat} (hsame : fork.format = format)
      (h : format.isMapped = true) : draft.format.isMapped = true := by
    rw [hformat, hsame]
    exact h
  have hcheck : (draft.decoded b.options ino).checkFork = .ok () := by
    rcases format_of_writeFork hfork with ⟨hlist, hin⟩ | htree
    · refine Inode.checkFork_eq_ok (hsuits (hmapped hlist rfl))
        (Or.inr (Or.inl ⟨hformat.trans hlist, ?_⟩))
      rw [hextents, hsize]
      exact hin
    · refine Inode.checkFork_eq_ok (hsuits (hmapped htree rfl))
        (Or.inr (Or.inr ⟨hformat.trans htree, ?_⟩))
      rw [hsize, rootHeaderLength]
      omega
  have hread := readInode_of_gives hleft h hk (by rwa [hoptions])
    (fun hi => by
      rw [hoptions] at hi
      exact ⟨hgrows.owns (hown hi).1, (hown hi).2⟩)
    (by rw [hoptions]; exact hcheck)
  have htotal := hleft.taken_le
  rw [hoptions] at hread htotal
  rw [htaken] at htotal
  exact ⟨hread, hholds _ hformat hextents hstored, htotal⟩

/-! ## The slot of a new inode -/

/-- A slot that was taken is still the inode's own when the blocks of its file are written. -/
theorem slot_of_gained {reserved placed : Builder} (h : b.GainedSlot ino reserved)
    (hg : reserved.Grows (fun _ => False) placed) (hs : ∀ {i}, spare i → b.Owns i) :
    (∃ ag agBlock slot, placed.options.Slot ino ag agBlock slot) ∧
      ∀ {i}, placed.options.InSlot ino i → placed.Owns i ∧ ¬ spare i := by
  have hoptions := hg.options.trans h.options
  refine ⟨?_, fun {i} hi => ?_⟩
  · rw [hoptions]
    exact h.slot
  · rw [hoptions] at hi
    exact ⟨hg.owns (h.owned hi), fun hspare => h.free hi (hs hspare)⟩

/-- What may be written again and the slot itself were handed out by then. -/
theorem spared_of_gained {reserved : Builder} {i : Nat} (h : b.GainedSlot ino reserved)
    (hs : ∀ {i}, spare i → b.Owns i) (hi : spare i ∨ b.options.InSlot ino i) : reserved.Owns i := by
  rcases hi with hspare | hin
  · exact (h.grows fun _ => False).owns (hs hspare)
  · exact h.owned hin

end BuildM

end XfsVolume
