import XfsVolume.Proofs.Image.DirectoryShape
import XfsVolume.Proofs.Image.MappedInodes

/-!
# Directories written and read back

A directory that is written is read back, whatever its layout: its inode decodes to a directory
whose fork holds the extents of its blocks, these blocks are found where they were placed, and what
is listed is the directory itself, its parent, and the entries that were given.
-/

namespace XfsVolume

namespace BuildM

open Builder

variable {m : Medium} {b b' : Builder} {spare : Nat → Prop} {ino parent owner : Nat}
  {entries : List (Name × Nat)} {layout : DirLayout} {drafts : List EntryDraft} {u : Unit}

def namedInodes (ino parent : Nat) (entries : List (Name × Nat)) : List (Name × Nat) :=
  (dotName, ino) :: (dotDotName, parent) :: entries

/-- The entries of a directory with blocks: itself, its parent, and what was asked for. -/
def allDrafts (ino parent : Nat) (drafts : List EntryDraft) : List EntryDraft :=
  { name := dotName, ino, ftype := FileKind.directory.code } ::
    { name := dotDotName, ino := parent, ftype := FileKind.directory.code } :: drafts

/-- An inode number that an entry can hold: its top bits are not all ones. -/
def FitsEntry (ino : Nat) : Prop := ino < UInt64.size ∧ ino / 2 ^ 48 ≠ 0xFFFF

instance (ino : Nat) : Decidable (FitsEntry ino) := inferInstanceAs (Decidable (_ ∧ _))

theorem dotNames_fit : (dotName ≠ [] ∧ dotName.length ≤ maxNameLength) ∧
    dotDotName ≠ [] ∧ dotDotName.length ≤ maxNameLength := by decide

theorem storable_allDrafts (hino : FitsEntry ino) (hparent : FitsEntry parent)
    (hdrafts : ∀ e ∈ drafts, e.name ≠ [] ∧ e.name.length ≤ maxNameLength ∧ FitsEntry e.ino) :
    ∀ e ∈ allDrafts ino parent drafts, e.Storable := by
  obtain ⟨hdot, hdots⟩ := dotNames_fit
  refine List.forall_mem_cons.mpr ⟨⟨hdot.1, hdot.2, hino.1, hino.2⟩,
    List.forall_mem_cons.mpr ⟨⟨hdots.1, hdots.2, hparent.1, hparent.2⟩, fun e he => ?_⟩⟩
  obtain ⟨hname, hlength, hfits⟩ := hdrafts e he
  exact ⟨hname, hlength, hfits.1, hfits.2⟩

theorem kind_dirMode : FileKind.ofMode (modeOf .directory dirPermissions) = .directory := by
  decide

def dirDraft (format : ForkFormat) (size blocks extents : Nat) (fork : ByteArray) : InodeDraft where
  mode := modeOf .directory dirPermissions
  format := format
  size := size
  blocks := blocks
  extents := extents
  nlink := 2
  fork := fork

theorem isDirectory_dirDraft (format : ForkFormat) (size blocks extents : Nat) (fork : ByteArray)
    (o : ImageOptions) (ino : Nat) :
    ((dirDraft format size blocks extents fork).decoded o ino).isDirectory = true := by
  show (FileKind.ofMode (modeOf .directory dirPermissions) == .directory) = true
  rw [kind_dirMode]
  rfl

/-! ## The steps of writing -/

theorem gives_draftEntries_bind {α : Type} {f : List EntryDraft → BuildM α} {a : α} :
    Gives (draftEntries entries >>= f) b a b' ↔
      ∃ drafts, Gives (draftEntries entries) b drafts b ∧ Gives (f drafts) b a b' := by
  rw [gives_bind]
  refine exists_congr fun drafts => ⟨?_, fun ⟨hdrafts, hrest⟩ => ⟨b, hdrafts, hrest⟩⟩
  rintro ⟨mid, hdrafts, hrest⟩
  obtain ⟨rfl, -⟩ := draftEntries_spec hdrafts
  exact ⟨hdrafts, hrest⟩

theorem gives_writeDir_inline : Gives (writeDir ino parent entries .inline) b u b' ↔
    ∃ drafts, Gives (draftEntries entries) b drafts b ∧
      ∃ stored, encodeInline b.options parent drafts = .ok stored ∧
        Gives (writeInode ino (dirDraft .inline stored.length 0 0 stored.toByteArray)) b u b' := by
  rw [writeDir, gives_draftEntries_bind]
  refine exists_congr fun drafts => and_congr_right fun _ => ?_
  rw [gives_options_bind]
  exact gives_liftM_bind

theorem gives_writeDir_mapped (hlayout : layout ≠ .inline) :
    Gives (writeDir ino parent entries layout) b u b' ↔
      ∃ drafts, Gives (draftEntries entries) b drafts b ∧ ∃ blocks dataBlocks,
        directoryBlocks b.options ino (allDrafts ino parent drafts) layout =
          .ok (blocks, dataBlocks) ∧
        ∃ extents mid, Gives (placeBlocks blocks) b extents mid ∧
        ∃ fork left, Gives (writeFork ino extents none) mid fork left ∧
        Gives (writeInode ino (dirDraft fork.format (dataBlocks * b.options.dirBlockSize)
          (blocks.length * b.options.blocksPerDirBlock + fork.treeBlocks) extents.length
          fork.bytes)) left u b' := by
  rw [writeDir, gives_draftEntries_bind]
  refine exists_congr fun drafts => and_congr_right fun _ => ?_
  rw [gives_options_bind]
  dsimp only
  rw [if_neg hlayout, gives_liftM_bind, Prod.exists]
  refine exists_congr fun blocks => exists_congr fun dataBlocks => and_congr_right fun _ => ?_
  rw [gives_bind]
  refine exists_congr fun extents => exists_congr fun mid => and_congr_right fun _ => ?_
  exact gives_bind

/-! ## Reading back -/

theorem map_listed {stored : List EntryDraft} (ftype : Bool) :
    (stored.map (·.listed ftype)).map (fun d => (d.name, d.ino)) =
      stored.map fun e => (e.name, e.ino) := by
  rw [List.map_map]
  rfl

theorem inlineDir_spec {stored : List UInt8} (hb : b.Sound)
    (hencode : encodeInline b.options parent drafts = .ok stored)
    (h : Gives (writeInode ino (dirDraft .inline stored.length 0 0 stored.toByteArray)) b u b')
    (hk : m.Keeps spare b') (hslot : ∃ ag agBlock slot, b.options.Slot ino ag agBlock slot)
    (hown : ∀ {i}, b.options.InSlot ino i → b.Owns i ∧ ¬ spare i) (hparent : FitsEntry parent)
    (hdrafts : ∀ e ∈ drafts, e.Storable) :
    ∃ inode, m.readInode ino = .ok inode ∧ m.Presents inode .inline
      ({ ino, name := dotName, kind := .directory } ::
        { ino := parent, name := dotDotName, kind := .directory } ::
        drafts.map (·.listed b.options.ftype)) := by
  obtain ⟨hread, hnumber, hsize, -⟩ := inlineInode_spec hb h rfl List.size_toByteArray.symm
    (by rw [dirDraft, kind_dirMode]; rfl) hk hslot hown
  have hoptions : b'.options = b.options := by rw [(gives_writeInode.mp h).2.2]
  have hm := hk.measures
  rw [hoptions] at hm
  have hdir := isDirectory_dirDraft .inline stored.length 0 0 stored.toByteArray b.options ino
  have hlisting := Medium.inlineListing_eq hm hencode hparent.1
    (fun e he => (hdrafts e he).fitsInline) (hsize.trans List.size_toByteArray) rfl
  rw [hnumber] at hlisting
  refine ⟨_, hread, ?_, trivial, Medium.lists_inline hlisting, Medium.lt_listingSteps hm ?_⟩
  · rw [Medium.dirFormat, hdir]
    rfl
  · simp only [encodeInline, throw_bind, ite_error_eq_ok] at hencode
    simp only [List.length_cons, List.length_map]
    omega

theorem length_le_maxLeafLinks {o : ImageOptions} {inode : Inode} {blocks used : Nat}
    (hm : o.Measures m.geometry)
    (hcount : inode.blocks.toNat = blocks * o.blocksPerDirBlock + used)
    (htotal : blocks * o.blocksPerDirBlock + used ≤ o.totalBlocks) :
    blocks ≤ m.maxLeafLinks inode := by
  have hmul := Nat.le_mul_of_pos_right blocks o.blocksPerDirBlock_pos
  rw [Medium.maxLeafLinks, hcount, hm.dataBlocks]
  omega

theorem mappedDir_spec {mid left : Builder} {dataBlocks : Nat} {blocks : PlacedBlocks}
    {extents : List Extent} {fork : ForkDraft} (hb : b.Sound) (hbounded : b.options.Bounded)
    (hmade : directoryBlocks b.options ino drafts layout = .ok (blocks, dataBlocks))
    (hplace : Gives (placeBlocks blocks) b extents mid)
    (hfork : Gives (writeFork ino extents none) mid fork left)
    (h : Gives (writeInode ino (dirDraft fork.format (dataBlocks * b.options.dirBlockSize)
      (blocks.length * b.options.blocksPerDirBlock + fork.treeBlocks) extents.length fork.bytes))
      left u b')
    (hk : m.Keeps spare b') (hs : ∀ {i}, spare i → b.Owns i)
    (hslot : ∃ ag agBlock slot, b.options.Slot ino ag agBlock slot)
    (hown : ∀ {i}, b.options.InSlot ino i → b.Owns i ∧ ¬ spare i)
    (hlayout : layout ≠ .inline) (hfits : layout.Fits b.options drafts.length)
    (hne : drafts ≠ []) (hdrafts : ∀ e ∈ drafts, e.Storable) :
    ∃ inode, m.readInode ino = .ok inode ∧ ∃ stored : List EntryDraft, stored.Perm drafts ∧
      m.Presents inode layout.format (stored.map (·.listed b.options.ftype)) := by
  have ho := hb.accepted
  have hsizes := size_of_mem_directoryBlocks ho hmade
  have hstands := stands_directoryBlocks ho hmade hfits
  have hplaceFrame : Frames (fun _ => False) (placeBlocks blocks) b := frames_placeBlocks hsizes
  obtain ⟨hmid, hgrowsMid⟩ := hplaceFrame.of_gives hb hplace
  have hoptionsMid := hgrowsMid.options
  obtain ⟨-, hkMid⟩ := keeps_of_writeMapped hmid hfork h hk
  rw [hoptionsMid] at hkMid
  have hkFirst := hkMid.before hgrowsMid
  have hspare {i : Nat} (hi : spare i ∨ b.options.InSlot ino i) : b.Owns i :=
    hi.elim hs fun hin => (hown hin).1
  obtain ⟨hplacing, hmaps, htaken⟩ :=
    placeBlocks_spec hb hplace hkMid hspare hsizes hstands.apart hstands.stop_le
  have hrun := ho.blocksPerDirBlock_le
  have hstop := layout.stop_le ho
  have horder := hplacing.inOrder hbounded (by rw [startBits]; omega)
  have hcount := hplacing.length_le
  rw [List.reverse_reverse] at horder
  rw [List.length_reverse] at hcount
  have hfew : extents.length < UInt32.size := by
    rw [UInt32.size]
    omega
  have hownMid {i : Nat} (hi : mid.options.InSlot ino i) : mid.Owns i ∧ ¬ spare i := by
    rw [hoptionsMid] at hi
    exact ⟨hgrowsMid.owns (hown hi).1, (hown hi).2⟩
  obtain ⟨hread, hf, htakenFork⟩ := mappedInode_spec hmid horder hfew (by simp) hfork h rfl rfl rfl
    (fun hmapped => by
      rw [dirDraft, kind_dirMode]
      exact Bool.or_eq_true_iff.mpr (Or.inr hmapped))
    hk (fun hi => hgrowsMid.owns (hs hi)) (by rwa [hoptionsMid]) hownMid
  rw [hoptionsMid] at hread hf htakenFork
  have htotal : blocks.length * b.options.blocksPerDirBlock + fork.treeBlocks ≤
      b.options.totalBlocks := by omega
  have hcounted := InodeDraft.toNat_blocks_decoded b.options ino
    (d := dirDraft fork.format (dataBlocks * b.options.dirBlockSize)
      (blocks.length * b.options.blocksPerDirBlock + fork.treeBlocks) extents.length fork.bytes)
    (Nat.lt_of_le_of_lt htotal hkFirst.inMemory.toCounted.totalBlocks_lt)
  exact ⟨_, hread, Medium.presents_of_placed hbounded hk.sized hkFirst.measures
    (isDirectory_dirDraft ..) hf (InodeDraft.toNat_extents_decoded _ _ hfew) hplacing hmade hlayout
    hfits hne hdrafts hmaps
    (fun x hx => Medium.dirBlock_of_maps hkFirst hf (hsizes x hx) (hmaps x hx))
    (length_le_maxLeafLinks hkFirst.measures hcounted htotal)⟩

/-- A directory that was written is read back. Its listing names the directory itself, its parent
and the entries that were given, in some order. -/
theorem writeDir_spec (hb : b.Sound) (hbounded : b.options.Bounded)
    (h : Gives (writeDir ino parent entries layout) b u b') (hk : m.Keeps spare b')
    (hs : ∀ {i}, spare i → b.Owns i)
    (hslot : ∃ ag agBlock slot, b.options.Slot ino ag agBlock slot)
    (hown : ∀ {i}, b.options.InSlot ino i → b.Owns i ∧ ¬ spare i) (hparent : FitsEntry parent)
    (hentries : ∀ e ∈ entries, FitsEntry e.2)
    (hfits : layout.Fits b.options (entries.length + 2)) :
    ∃ inode, m.readInode ino = .ok inode ∧ ∃ listing, m.Presents inode layout.format listing ∧
      (listing.map fun d => (d.name, d.ino)).Perm (namedInodes ino parent entries) := by
  have hstorable {drafts : List EntryDraft} (hdrafts : Gives (draftEntries entries) b drafts b) :
      ∀ e ∈ allDrafts ino parent drafts, e.Storable := by
    obtain ⟨-, hsame, hnames⟩ := draftEntries_spec hdrafts
    obtain ⟨ag, agBlock, slot, hslot⟩ := hslot
    have hlt := hslot.ino_lt hbounded.inMemory
    refine storable_allDrafts ⟨by rw [UInt64.size]; omega, by omega⟩ hparent fun e he => ?_
    have hin : (e.name, e.ino) ∈ entries := hsame ▸ List.mem_map_of_mem he
    exact ⟨(hnames e he).1, (hnames e he).2, hentries _ hin⟩
  by_cases hlayout : layout = .inline
  · subst hlayout
    obtain ⟨drafts, hdrafts, stored, hencode, hwrite⟩ := gives_writeDir_inline.mp h
    obtain ⟨inode, hread, hpresents⟩ := inlineDir_spec hb hencode hwrite hk hslot hown hparent
      fun e he => hstorable hdrafts e (List.mem_cons_of_mem _ (List.mem_cons_of_mem _ he))
    refine ⟨inode, hread, _, hpresents, ?_⟩
    rw [List.map_cons, List.map_cons, map_listed, (draftEntries_spec hdrafts).2.1]
    exact .refl _
  · obtain ⟨drafts, hdrafts, blocks, dataBlocks, hmade, extents, mid, hplace, fork, left, hfork,
      hwrite⟩ := (gives_writeDir_mapped hlayout).mp h
    obtain ⟨-, hsame, -⟩ := draftEntries_spec hdrafts
    have hlength : (allDrafts ino parent drafts).length = entries.length + 2 := by
      rw [← hsame, List.length_map]
      rfl
    rw [← hlength] at hfits
    obtain ⟨inode, hread, stored, hperm, hpresents⟩ := mappedDir_spec hb hbounded hmade hplace hfork
      hwrite hk hs hslot hown hlayout hfits (List.cons_ne_nil _ _) (hstorable hdrafts)
    refine ⟨inode, hread, _, hpresents, ?_⟩
    rw [map_listed, namedInodes, ← hsame]
    exact hperm.map fun e => (e.name, e.ino)

end BuildM

end XfsVolume
