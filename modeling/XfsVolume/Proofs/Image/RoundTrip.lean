import XfsVolume.Proofs.Image.Finished
import XfsVolume.Proofs.Image.WrittenDirectory

/-!
# Directories of finished volumes

A caller builds a volume, adds a directory to it, goes on building and finishes it. Whatever is
built before and after, the reader of the finished volume finds the directory as it was added: in
the format of its layout, with the names that it was given and the two of its own, and no others.
-/

namespace XfsVolume

namespace Medium

/-- The directory is of this format and holds these names: a look-up finds each with its inode and
no other, and the listing gives each once. All this holds whatever the cache keeps. -/
structure HoldsNames (m : Medium) (dir : Inode) (format : DirFormat) (named : List (Name × Nat)) :
    Prop where
  classified : m.dirFormat dir = .ok format
  found : ∀ {c : BlockCache}, c.Agrees m.device → ∀ entry ∈ named,
    ∃ kind, ((m.lookupName dir entry.1).run.run c).1 = .ok (some (entry.2, kind))
  missing : ∀ {c : BlockCache}, c.Agrees m.device → ∀ name : Name, name ≠ [] →
    name.length ≤ maxNameLength → name ∉ named.map Prod.fst →
      ((m.lookupName dir name).run.run c).1 = .ok none
  listed : ∀ {c : BlockCache}, c.Agrees m.device → ∃ listing,
    ((m.readAll dir).run.run c).1 = .ok listing ∧
      (listing.map fun d => (d.name, d.ino)).Perm named

theorem Presents.holdsNames {m : Medium} {dir : Inode} {format : DirFormat}
    {listing : List DirEntry} {named : List (Name × Nat)} (h : m.Presents dir format listing)
    (hperm : (listing.map fun d => (d.name, d.ino)).Perm named)
    (hnames : (named.map Prod.fst).Nodup)
    (hlengths : ∀ entry ∈ named, entry.1 ≠ [] ∧ entry.1.length ≤ maxNameLength) :
    m.HoldsNames dir format named := by
  have hsame : (listing.map DirEntry.name).Perm (named.map Prod.fst) := by
    have hmap := hperm.map Prod.fst
    rwa [List.map_map] at hmap
  refine ⟨h.classified, fun hc entry hentry => ?_, fun hc name hne hlen hother => ?_, fun hc => ?_⟩
  · obtain ⟨d, hd, rfl⟩ := List.mem_map.mp (hperm.mem_iff.mpr hentry)
    obtain ⟨hne, hlen⟩ := hlengths _ hentry
    refine ⟨d.kind, ?_⟩
    rw [h.lookupName_eq hc hne hlen, firstNamed_of_mem (hsame.nodup_iff.mpr hnames) hd]
    rfl
  · rw [h.lookupName_eq hc hne hlen, firstNamed_eq_none]
    rintro d hd rfl
    exact hother (hsame.mem_iff.mp (List.mem_map_of_mem hd))
  · exact ⟨listing, h.readAll_eq hc, hperm⟩

end Medium

theorem bounded_small : ImageOptions.Bounded { agBlocks := 16, agCount := 1 } := by
  refine ⟨?_, by decide, by decide⟩
  constructor <;> decide

/-- `b` is a volume of one small group whose next free block is `next`; its inodes lie in block 1,
where those from `slot` on are free. -/
structure Builder.Small (b : Builder) (next slot : Nat) : Prop where
  sound : b.Sound
  options : b.options = { agBlocks := 16, agCount := 1 }
  nextBlocks : b.nextBlocks = #[next]
  inodeBlocks : b.inodeBlocks = #[some (1, slot)]

/-- Inode `ino` is a block directory of these names, itself and its parent among them. -/
def Volume.HoldsDir (v : Volume) (ino parent : Nat) (entries : List (Name × Nat)) : Prop :=
  ∃ inode, v.toMedium.readInode ino = .ok inode ∧
    v.toMedium.HoldsNames inode .block (BuildM.namedInodes ino parent entries)

/-- The root names two directories, `a` and `b`, and each of the three has a block of its own. -/
structure Volume.HoldsThreeDirs (v : Volume) : Prop where
  root : v.root = 8
  blocksPerDirBlock : v.geometry.blocksPerDirBlock = 1
  top : v.HoldsDir 8 8 [([97], 9), ([98], 10)]
  first : v.HoldsDir 9 8 []
  second : v.HoldsDir 10 8 []

namespace BuildM

open Builder

variable {b b' mid left : Builder} {m : Medium} {dir parent next slot : Nat}
  {entries : List (Name × Nat)} {drafts : List EntryDraft} {layout : DirLayout}

theorem lengths_of_gives (h : Gives (addDir parent entries layout) b dir b') :
    ∀ entry ∈ namedInodes dir parent entries, entry.1 ≠ [] ∧ entry.1.length ≤ maxNameLength := by
  rw [addDir] at h
  obtain ⟨ino, mid, -, h⟩ := gives_bind.mp h
  obtain ⟨u, left, hwrite, -⟩ := gives_bind.mp h
  rw [writeDir] at hwrite
  obtain ⟨drafts, _, hdrafts, -⟩ := gives_bind.mp hwrite
  obtain ⟨-, hsame, hnames⟩ := draftEntries_spec hdrafts
  refine List.forall_mem_cons.mpr ⟨dotNames_fit.1,
    List.forall_mem_cons.mpr ⟨dotNames_fit.2, ?_⟩⟩
  intro entry hentry
  rw [← hsame] at hentry
  obtain ⟨e, he, rfl⟩ := List.mem_map.mp hentry
  exact hnames e he

theorem addDir_spec (hb : b.Sound) (hbounded : b.options.Bounded)
    (h : Gives (addDir parent entries layout) b dir b') {spare : Nat → Prop}
    (hk : m.Keeps spare b') (hs : ∀ {i}, spare i → b.Owns i)
    (hparent : FitsEntry parent) (hentries : ∀ e ∈ entries, FitsEntry e.2)
    (hfits : layout.Fits b.options (entries.length + 2)) :
    ∃ inode, m.readInode dir = .ok inode ∧ ∃ listing, m.Presents inode layout.format listing ∧
      (listing.map fun d => (d.name, d.ino)).Perm (namedInodes dir parent entries) := by
  rw [addDir] at h
  obtain ⟨ino, mid, hreserve, h⟩ := gives_bind.mp h
  obtain ⟨u, left, hwrite, h⟩ := gives_bind.mp h
  obtain ⟨rfl, rfl⟩ := gives_pure.mp h
  have hgained := gainedSlot_of_gives hreserve hb
  rw [← hgained.options] at hfits hbounded
  refine writeDir_spec hgained.sound hbounded hwrite hk
    (fun hi => (hgained.grows fun _ => False).owns (hs hi)) ?_ (fun hi => ?_) hparent hentries hfits
  · rw [hgained.options]
    exact hgained.slot
  · rw [hgained.options] at hi
    exact ⟨hgained.owned hi, fun hspare => hgained.free hi (hs hspare)⟩

theorem holdsNames_of_addDir (hb : b.Sound) (hbounded : b.options.Bounded)
    (h : Gives (addDir parent entries layout) b dir b') {spare : Nat → Prop}
    (hk : m.Keeps spare b') (hs : ∀ {i}, spare i → b.Owns i)
    (hparent : FitsEntry parent) (hinos : ∀ e ∈ entries, FitsEntry e.2)
    (hnames : (entries.map Prod.fst).Nodup) (hdot : dotName ∉ entries.map Prod.fst)
    (hdotDot : dotDotName ∉ entries.map Prod.fst)
    (hfits : layout.Fits b.options (entries.length + 2)) :
    ∃ inode, m.readInode dir = .ok inode ∧
      m.HoldsNames inode layout.format (namedInodes dir parent entries) := by
  obtain ⟨inode, hread, listing, hpresents, hperm⟩ :=
    addDir_spec hb hbounded h hk hs hparent hinos hfits
  refine ⟨inode, hread, hpresents.holdsNames hperm ?_ (lengths_of_gives h)⟩
  have hdots : dotName ≠ dotDotName := by decide
  simp only [namedInodes, List.map_cons, List.nodup_cons, List.mem_cons, not_or]
  exact ⟨⟨hdots, hdot⟩, hdotDot, hnames⟩

/-! ### Block directories of a small volume -/

theorem gives_placeBlocks_one {address fb : Nat} {block : ByteArray}
    (hone : b.options.blocksPerDirBlock = 1) (h : Gives (allocate 1) b address mid) :
    Gives (placeBlocks [(fb, block)]) b
      [{ start := fb, address, count := 1, unwritten := false }]
      { mid with image := overwrite mid.image (mid.options.blockOffset address) block } := by
  have hplace : Gives (placeBlock [] (fb, block)) b
      [{ start := fb, address, count := 1, unwritten := false }]
      { mid with image := overwrite mid.image (mid.options.blockOffset address) block } := by
    rw [placeBlock, gives_options_bind]
    dsimp only
    rw [hone, gives_ite, if_neg (by simp), gives_bind]
    refine ⟨address, mid, h, gives_bind.mpr ⟨(), _, gives_writeBlocks.mpr rfl, ?_⟩⟩
    exact gives_pure.mpr ⟨rfl, rfl⟩
  rw [placeBlocks, List.mergeSort_singleton, gives_bind]
  refine ⟨[{ start := fb, address, count := 1, unwritten := false }], _, ?_,
    gives_pure.mpr ⟨rfl, rfl⟩⟩
  rw [List.foldlM_cons, gives_bind]
  exact ⟨_, _, hplace, gives_pure.mpr ⟨rfl, rfl⟩⟩

/-- A block directory is added to a volume with room for its inode and its block. -/
theorem exists_gives_addDir_block {address : Nat} {block : ByteArray} (hb : b.Sound)
    (hone : b.options.blocksPerDirBlock = 1) (hreserve : Gives reserve b dir mid)
    (hallocate : Gives (allocate 1) mid address left)
    (hdrafts : Gives (draftEntries entries) mid drafts mid)
    (hmade : directoryBlocks b.options dir (allDrafts dir parent drafts) .block =
      .ok ([(0, block)], 1)) :
    ∃ b', Gives (addDir parent entries .block) b dir b' ∧ b'.nextBlocks = left.nextBlocks ∧
      b'.inodeBlocks = left.inodeBlocks := by
  have hgained := gainedSlot_of_gives hreserve hb
  obtain ⟨ag, agBlock, slot, hslot⟩ := hgained.slot
  rw [← hgained.options] at hone hmade
  obtain ⟨placed, hplaced⟩ : ∃ placed : Builder, placed =
      { left with image := overwrite left.image (left.options.blockOffset address) block } :=
    ⟨_, rfl⟩
  have hplace : Gives (placeBlocks [(0, block)]) mid
      [{ start := 0, address, count := 1, unwritten := false }] placed := by
    rw [hplaced]
    exact gives_placeBlocks_one hone hallocate
  have hframe : Frames (fun _ => False) (placeBlocks [(0, block)]) mid :=
    frames_placeBlocks (size_of_mem_directoryBlocks hgained.sound.accepted hmade)
  obtain ⟨hsound, hgrows⟩ := hframe.of_gives hgained.sound hplace
  have hoptions : placed.options = b.options := hgrows.options.trans hgained.options
  have hliteral : 1 * 16 ≤ placed.options.literalLength := by
    have hge := hsound.accepted.literalLength_ge.1
    omega
  have hin : placed.options.inodeOffset dir + placed.options.inodeSize ≤ placed.image.size := by
    rw [hsound.size, hoptions]
    exact hslot.bytes_le hb.accepted
  have hfork : Gives (writeFork dir [{ start := 0, address, count := 1, unwritten := false }] none)
      placed _ placed := gives_writeFork_list hliteral
  have hwrite : Gives (writeDir dir parent entries .block) mid () _ :=
    (gives_writeDir_mapped (by decide)).mpr ⟨drafts, hdrafts, _, _, hmade, _, placed, hplace,
      _, placed, hfork, gives_writeInode.mpr ⟨hliteral, hin, rfl⟩⟩
  refine ⟨_, gives_bind.mpr ⟨dir, mid, hreserve,
    gives_bind.mpr ⟨(), _, hwrite, gives_pure.mpr ⟨rfl, rfl⟩⟩⟩, ?_, ?_⟩
  · rw [hplaced]
  · rw [hplaced]

theorem gives_reserve_next (h : b.Small next slot) (hslot : slot < 8) :
    ∃ mid, Gives reserve b (8 + slot) mid ∧ mid.Small next (slot + 1) := by
  have hperBlock : b.options.inodesPerBlock = 8 := by
    rw [h.options]
    decide
  have hplace : b.inodeBlocks[0]? = some (some (1, slot)) := by
    rw [h.inodeBlocks]
    rfl
  have hrun := run_reserveIn_next hplace (by rw [hperBlock]; exact hslot)
  rw [hperBlock, Nat.zero_shiftLeft, Nat.zero_add, Nat.one_mul] at hrun
  have hgives : Gives reserve b (8 + slot) _ := hrun
  refine ⟨_, hgives, (gainedSlot_of_gives hgives h.sound).sound, h.options, h.nextBlocks, ?_⟩
  rw [h.inodeBlocks]
  rfl

theorem exists_gives_addDir_small {block : ByteArray} (hb : b.Sound)
    (hreserve : Gives reserve b dir mid) (h : mid.Small next slot) (hnext : next < 16)
    (hdrafts : Gives (draftEntries entries) mid drafts mid)
    (hmade : directoryBlocks { agBlocks := 16, agCount := 1 } dir (allDrafts dir parent drafts)
      .block = .ok ([(0, block)], 1)) :
    ∃ b', Gives (addDir parent entries .block) b dir b' ∧ b'.Small (next + 1) slot := by
  have hoptions : b.options = { agBlocks := 16, agCount := 1 } :=
    (gainedSlot_of_gives hreserve hb).options.symm.trans h.options
  have hfront : mid.nextBlocks[0]? = some next := by
    rw [h.nextBlocks]
    rfl
  have hgroups : 0 < mid.options.agCount ∧ next + 1 ≤ mid.options.agBlocks := by
    rw [h.options]
    exact ⟨by decide, hnext⟩
  rw [← hoptions] at hmade
  obtain ⟨b', hgives, hnextBlocks, hinodeBlocks⟩ := exists_gives_addDir_block hb
    (by rw [hoptions]; decide) hreserve (gives_allocate_first hgroups.1 hfront hgroups.2) hdrafts
    hmade
  have hframe : Frames (fun _ => False) (addDir parent entries .block) b :=
    (makesInode_addDir parent entries .block).frames _ b
  obtain ⟨hsound, hgrows⟩ := hframe.of_gives hb hgives
  refine ⟨b', hgives, hsound, hgrows.options.trans hoptions, ?_, ?_⟩
  · rw [hnextBlocks, h.nextBlocks]
    rfl
  · rw [hinodeBlocks, h.inodeBlocks]

theorem gives_addDir_block : ∃ b,
    Gives (addDir 8 [([97], 9)] .block) (Builder.empty { agBlocks := 16, agCount := 1 }) 8 b := by
  obtain ⟨o, ho⟩ : ∃ o : ImageOptions, o = { agBlocks := 16, agCount := 1 } := ⟨_, rfl⟩
  obtain ⟨mid, hmid, hreserve, hoptions, hsound⟩ := gives_reserve_small ho
  have hsmall : mid.Small 2 1 := ⟨hsound, hoptions.trans ho, by rw [hmid], by rw [hmid]⟩
  have hdrafts : Gives (draftEntries [([97], 9)]) mid
      [{ name := [97], ino := 9, ftype := 0 }] mid := by
    subst hmid
    rfl
  obtain ⟨block, hblock⟩ : ∃ block, directoryBlocks { agBlocks := 16, agCount := 1 } 8
      (allDrafts 8 8 [{ name := [97], ino := 9, ftype := 0 }]) .block = .ok ([(0, block)], 1) :=
    ⟨_, rfl⟩
  subst ho
  obtain ⟨b, hdir, -⟩ := exists_gives_addDir_small (sound_empty bounded_small.toAccepted) hreserve
    hsmall (by decide) hdrafts hblock
  exact ⟨b, hdir⟩

/-! ### Any directory -/

/-- **Directory round trip.** A directory is added to a volume that a caller builds, after any
steps and before any others that leave it alone. However the finished volume is mounted, the
directory has the format that was asked for, and holds itself, its parent and the entries that it
was given. -/
theorem addDir_roundTrip {o : ImageOptions} {made before after left : Builder}
    {known known' : List Nat} {image : ByteArray} {options : MountOptions}
    (hmade : Builder.ofOptions o = .ok made) (hblocks : o.agBlocks ≤ 2 ^ 20)
    (hcount : o.agCount ≤ 2 ^ 20) (hbefore : made.Reaches [] before known)
    (hparent : FitsEntry parent) (hinos : ∀ entry ∈ entries, FitsEntry entry.2)
    (hnames : (entries.map Prod.fst).Nodup) (hdot : dotName ∉ entries.map Prod.fst)
    (hdotDot : dotDotName ∉ entries.map Prod.fst) (hfits : layout.Fits o (entries.length + 2))
    (hdir : Gives (addDir parent entries layout) before dir b)
    (hafter : b.Reaches known after known') (hfinish : Gives finish after image left) :
    ((∀ root, after.root = some root → options.skipValidation = false →
        (root % UInt64.size) >>> o.inodeBits < o.agCount) →
      ∃ v, Volume.mountBytes image options = .ok v) ∧
    ∀ v, Volume.mountBytes image options = .ok v → ∃ inode,
      v.toMedium.readInode dir = .ok inode ∧
        v.toMedium.HoldsNames inode layout.format (namedInodes dir parent entries) := by
  have hbounded : o.Bounded := ⟨(Builder.ofOptions_eq_ok.mp hmade).1, hblocks, hcount⟩
  obtain ⟨hsound, hoptions, hmounts, hkeeps⟩ := finished_of_step
    (makesInode_addDir parent entries layout) hmade hbounded.inMemory hbefore hdir hafter hfinish
  refine ⟨hmounts, fun v hmount => ?_⟩
  obtain ⟨spare, hk, hspare⟩ := hkeeps v hmount
  rw [← hoptions] at hfits hbounded
  exact holdsNames_of_addDir hsound hbounded hdir hk hspare hparent hinos hnames hdot hdotDot hfits

/-- The root of a volume names a file. -/
theorem addDir_roundTrip_block : ∃ image v inode, Volume.mountBytes image {} = .ok v ∧
    v.toMedium.readInode 8 = .ok inode ∧ v.toMedium.HoldsNames inode .block
      [(dotName, 8), (dotDotName, 8), ([97], 9)] := by
  obtain ⟨b, hdir⟩ := gives_addDir_block
  have hmade : Builder.ofOptions { agBlocks := 16, agCount := 1 } =
      .ok (Builder.empty { agBlocks := 16, agCount := 1 }) := rfl
  have hfinish : Gives finish (after (BuildStep.setRoot 8).run b)
      (overwrite b.image 0 (b.options.superblock 8)) _ := rfl
  have hfits : DirLayout.Fits .block { agBlocks := 16, agCount := 1 } 3 := trivial
  obtain ⟨hmounts, hholds⟩ := addDir_roundTrip hmade (by decide) (by decide) .refl
    (by decide) (by decide) (by decide) (by decide) (by decide) hfits hdir
    (.step .refl (.setRoot 8) (by decide)) hfinish
  obtain ⟨v, hmount⟩ := hmounts fun root hroot _ => by
    cases hroot
    decide
  obtain ⟨inode, hread, hnames⟩ := hholds v hmount
  exact ⟨_, v, inode, hmount, hread, hnames⟩

/-! ### A volume of three directories -/

/-- A root with two directories in it, made one after the other in an empty volume of one small
group. -/
theorem gives_threeDirs : ∃ b₁ b₂ b₃,
    Gives (addDir 8 [([97], 9), ([98], 10)] .block)
      (Builder.empty { agBlocks := 16, agCount := 1 }) 8 b₁ ∧
    Gives (addDir 8 [] .block) b₁ 9 b₂ ∧ Gives (addDir 8 [] .block) b₂ 10 b₃ := by
  obtain ⟨o, ho⟩ : ∃ o : ImageOptions, o = { agBlocks := 16, agCount := 1 } := ⟨_, rfl⟩
  obtain ⟨mid₁, hmid, hreserve₁, hoptions, hsound⟩ := gives_reserve_small ho
  have hempty : (Builder.empty o).Sound := by
    rw [ho]
    exact sound_empty bounded_small.toAccepted
  have hsmall : mid₁.Small 2 1 := ⟨hsound, hoptions.trans ho, by rw [hmid], by rw [hmid]⟩
  have hdrafts : Gives (draftEntries [([97], 9), ([98], 10)]) mid₁
      [{ name := [97], ino := 9, ftype := 0 }, { name := [98], ino := 10, ftype := 0 }] mid₁ := by
    subst hmid
    rfl
  obtain ⟨block₁, hblock₁⟩ : ∃ block, directoryBlocks { agBlocks := 16, agCount := 1 } 8
      (allDrafts 8 8 [{ name := [97], ino := 9, ftype := 0 },
        { name := [98], ino := 10, ftype := 0 }]) .block = .ok ([(0, block)], 1) := ⟨_, rfl⟩
  obtain ⟨b₁, hdir₁, hsmall₁⟩ :=
    exists_gives_addDir_small hempty hreserve₁ hsmall (by decide) hdrafts hblock₁
  have hnone (b : Builder) : Gives (draftEntries []) b [] b := rfl
  obtain ⟨mid₂, hreserve₂, hmid₂⟩ := gives_reserve_next hsmall₁ (by decide)
  obtain ⟨block₂, hblock₂⟩ : ∃ block, directoryBlocks { agBlocks := 16, agCount := 1 } 9
      (allDrafts 9 8 []) .block = .ok ([(0, block)], 1) := ⟨_, rfl⟩
  obtain ⟨b₂, hdir₂, hsmall₂⟩ :=
    exists_gives_addDir_small hsmall₁.sound hreserve₂ hmid₂ (by decide) (hnone _) hblock₂
  obtain ⟨mid₃, hreserve₃, hmid₃⟩ := gives_reserve_next hsmall₂ (by decide)
  obtain ⟨block₃, hblock₃⟩ : ∃ block, directoryBlocks { agBlocks := 16, agCount := 1 } 10
      (allDrafts 10 8 []) .block = .ok ([(0, block)], 1) := ⟨_, rfl⟩
  obtain ⟨b₃, hdir₃, -⟩ :=
    exists_gives_addDir_small hsmall₂.sound hreserve₃ hmid₃ (by decide) (hnone _) hblock₃
  rw [ho] at hdir₁
  exact ⟨b₁, b₂, b₃, hdir₁, hdir₂, hdir₃⟩

theorem holdsNames_of_grows (hb : b.Sound) (hoptions : b.options = { agBlocks := 16, agCount := 1 })
    (h : Gives (addDir 8 entries .block) b dir b') (hgrows : b'.Grows (fun _ => False) left)
    (hk : m.Keeps (fun _ => False) left) (hinos : ∀ e ∈ entries, FitsEntry e.2)
    (hnames : (entries.map Prod.fst).Nodup) (hdot : dotName ∉ entries.map Prod.fst)
    (hdotDot : dotDotName ∉ entries.map Prod.fst) : ∃ inode, m.readInode dir = .ok inode ∧
      m.HoldsNames inode .block (namedInodes dir 8 entries) := by
  have hbounded : b.options.Bounded := by
    rw [hoptions]
    exact bounded_small
  exact holdsNames_of_addDir hb hbounded h (hk.back hgrows) (fun hi => (hi.elim id id).elim)
    (by decide) hinos hnames hdot hdotDot trivial

/-- The volume of the three directories is finished and mounted, with any options. -/
theorem mounts_threeDirs : ∃ image, ∀ options : MountOptions, ∃ v,
    Volume.mountBytes image options = .ok v ∧ v.cacheSlots = options.cacheSlots ∧
      v.HoldsThreeDirs := by
  obtain ⟨b₁, b₂, b₃, hdir₁, hdir₂, hdir₃⟩ := gives_threeDirs
  obtain ⟨b, hb⟩ : ∃ b, b = Builder.empty { agBlocks := 16, agCount := 1 } := ⟨_, rfl⟩
  rw [← hb] at hdir₁
  have hoptions : b.options = { agBlocks := 16, agCount := 1 } := by
    rw [hb]
    rfl
  have hsound : b.Sound := by
    rw [hb]
    exact sound_empty bounded_small.toAccepted
  have hframe (entries : List (Name × Nat)) (b : Builder) :
      Frames (fun _ => False) (addDir 8 entries .block) b :=
    (makesInode_addDir 8 entries .block).frames _ b
  obtain ⟨hsound₁, hgrows₁⟩ := (hframe _ b).of_gives hsound hdir₁
  obtain ⟨hsound₂, hgrows₂⟩ := (hframe _ b₁).of_gives hsound₁ hdir₂
  obtain ⟨hsound₃, hgrows₃⟩ := (hframe _ b₂).of_gives hsound₂ hdir₃
  obtain ⟨b₄, hroot, hsound₄, hgrows₄⟩ : ∃ b₄, b₄.root = some 8 ∧ b₄.Sound ∧
      b₃.Grows (fun _ => False) b₄ := ⟨{ b₃ with root := some 8 }, rfl, frames_setRoot 8 hsound₃⟩
  have hoptions₁ := hgrows₁.options.trans hoptions
  have hoptions₂ := hgrows₂.options.trans hoptions₁
  have hoptions₄ := hgrows₄.options.trans (hgrows₃.options.trans hoptions₂)
  obtain ⟨left, hfinish⟩ := gives_finish hroot
  refine ⟨overwrite b₄.image 0 (b₄.options.superblock 8), fun options => ?_⟩
  have hgroup : ∀ root, b₄.root = some root → options.skipValidation = false →
      (root % UInt64.size) >>> b₄.options.inodeBits < b₄.options.agCount := by
    intro root hsome _
    rw [hroot] at hsome
    cases hsome
    rw [hoptions₄]
    decide
  obtain ⟨v, hmount, hslots, ⟨root, hsome, hgeometry⟩, hkeeps⟩ :=
    mount_finished hsound₄ (by rw [hoptions₄]; exact bounded_small.inMemory) hfinish hgroup
  rw [hroot] at hsome
  cases hsome
  refine ⟨v, hmount, hslots, ?_, ?_, ?_, ?_, ?_⟩
  · rw [Volume.root, hgeometry]
    rfl
  · rw [hgeometry, hoptions₄]
    rfl
  · exact holdsNames_of_grows hsound hoptions hdir₁ (hgrows₂.trans (hgrows₃.trans hgrows₄)) hkeeps
      (by decide) (by decide) (by decide) (by decide)
  · exact holdsNames_of_grows hsound₁ hoptions₁ hdir₂ (hgrows₃.trans hgrows₄) hkeeps
      (by decide) (by decide) (by decide) (by decide)
  · exact holdsNames_of_grows hsound₂ hoptions₂ hdir₃ hgrows₄ hkeeps
      (by decide) (by decide) (by decide) (by decide)

end BuildM

end XfsVolume
