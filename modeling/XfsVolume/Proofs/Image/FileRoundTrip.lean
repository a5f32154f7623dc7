import XfsVolume.Proofs.Image.FileBlocks
import XfsVolume.Proofs.Image.Finished
import XfsVolume.Proofs.Image.MappedInodes

/-!
# Files of finished volumes

A caller builds a volume, adds a regular file to it, goes on building and finishes it. Whatever is
built before and after, a read of the file in the finished volume gives the bytes that the file was
added with: its contents, or the pattern of its written extents and zeros between them, whether its
extents are listed in the inode or stand in a tree.
-/

namespace XfsVolume

/-- A regular file to be added: with contents, or with extents filled with their pattern. -/
inductive FileDraft
  | plain (data : ByteArray)
  | patterned (size : Nat) (drafts : List ExtentDraft) (shape : Option TreeShape)

namespace FileDraft

def add : FileDraft → BuildM Nat
  | plain data => BuildM.addFile data
  | patterned size drafts shape => BuildM.addPatterned size drafts shape

def size : FileDraft → Nat
  | plain data => data.size
  | patterned size _ _ => size

def byte : FileDraft → Nat → UInt8
  | plain data => byteAt data
  | patterned _ drafts _ => patternedByte drafts

/-- The file's length fits its inode, its extents end where a packed extent still says so, and a
tree over them is no higher than a reader follows. -/
def Fits (o : ImageOptions) : FileDraft → Prop
  | plain _ => True
  | patterned size drafts shape => size < UInt64.size ∧
      (∀ d ∈ drafts, d.start + d.count ≤ 2 ^ startBits) ∧
      ∀ s, shape = some s → o.treeLevel s drafts.length < maxTreeDepth

end FileDraft

/-- The inode is a file of `size` bytes, and its extents hold these on the medium. -/
def Medium.HoldsFile (m : Medium) (o : ImageOptions) (ino size : Nat) (content : Nat → UInt8) :
    Prop :=
  ∃ inode extents, m.readInode ino = .ok inode ∧ inode.isDirectory = false ∧
    inode.size.toNat = size ∧ m.ForkHolds inode extents ∧ m.Stores o extents size content

theorem Volume.readContents_of_holds {v : Volume} {b : Builder} {spare : Nat → Prop}
    {ino size : Nat} {content : Nat → UInt8} (hk : v.toMedium.Keeps spare b)
    (h : v.toMedium.HoldsFile b.options ino size content) (offset len : Nat) :
    ∃ piece, v.readContents ino offset len = .ok piece ∧
      piece.size = readCount size offset len ∧
      ∀ i < piece.size, byteAt piece i = content (offset + i) := by
  obtain ⟨inode, extents, hread, hdir, hsize, hfork, hstores⟩ := h
  obtain ⟨piece, hdata, hbytes⟩ := readData_of_stores hk hfork hstores hdir hsize offset len
  refine ⟨piece, ?_, hbytes⟩
  rw [readContents, hread, ok_bind, hdata]

namespace BuildM

open Builder

variable {b b' : Builder} {m : Medium} {spare : Nat → Prop} {ino : Nat}

theorem kind_fileMode : FileKind.ofMode (modeOf .regular filePermissions) = .regular := by
  decide

def fileDraft (format : ForkFormat) (size blocks extents : Nat) (fork : ByteArray) :
    InodeDraft where
  mode := modeOf .regular filePermissions
  format := format
  size := size
  blocks := blocks
  extents := extents
  nlink := 1
  fork := fork

theorem writtenFile_spec {left : Builder} {extents : List Extent} {shape : Option TreeShape}
    {fork : ForkDraft} {size blocks : Nat} {content : Nat → UInt8} {u : Unit} (hb : b.Sound)
    (hbounded : b.options.Bounded) (hstores : m.Stores b.options extents size content)
    (hfew : extents.length < UInt32.size) (hsize : size < UInt64.size)
    (hlevel : ∀ s, shape = some s → b.options.treeLevel s extents.length < maxTreeDepth)
    (hfork : Gives (writeFork ino extents shape) b fork left)
    (h : Gives (writeInode ino (fileDraft fork.format size blocks extents.length fork.bytes))
      left u b')
    (hk : m.Keeps spare b') (hs : ∀ {i}, spare i → b.Owns i)
    (hslot : ∃ ag agBlock slot, b.options.Slot ino ag agBlock slot)
    (hown : ∀ {i}, b.options.InSlot ino i → b.Owns i ∧ ¬ spare i) :
    m.HoldsFile b.options ino size content := by
  obtain ⟨hread, hholds, -⟩ := mappedInode_spec hb (hstores.inOrder hbounded) hfew hlevel hfork h
    rfl rfl rfl (fun hmapped => by rw [fileDraft, kind_fileMode]; exact hmapped) hk hs hslot hown
  refine ⟨_, extents, hread, ?_, InodeDraft.toNat_size_decoded _ _ hsize, hholds, hstores⟩
  show (FileKind.ofMode (modeOf .regular filePermissions) == .directory) = false
  rw [kind_fileMode]
  rfl

theorem addFile_spec {data : ByteArray} (hb : b.Sound) (hbounded : b.options.Bounded)
    (h : Gives (addFile data) b ino b')
    (hk : m.Keeps spare b') (hs : ∀ {i}, spare i → b.Owns i) :
    m.HoldsFile b.options ino data.size (byteAt data) := by
  rw [addFile] at h
  obtain ⟨slot, reserved, hreserve, h⟩ := gives_bind.mp h
  obtain ⟨count, hcount, h⟩ := gives_liftM_bind.mp h
  obtain ⟨hbound, hcounted⟩ := fitting_eq_ok.mp hcount
  have hslot := gainedSlot_of_gives hreserve hb
  have hspared {i : Nat} (hi : spare i ∨ b.options.InSlot slot i) := spared_of_gained hslot hs hi
  have hdata : data.size ≤ count * imageBlockSize := by
    rw [hcounted, imageBlockSize]
    omega
  have hsize : data.size < UInt64.size := by
    rw [UInt64.size]
    rw [imageBlockSize] at hbound
    omega
  dsimp only at h
  rw [pure_bind] at h
  split at h
  · rename_i hzero
    obtain ⟨fork, left, hfork, h⟩ := gives_bind.mp h
    obtain ⟨u, written, hwrite, h⟩ := gives_bind.mp h
    obtain ⟨rfl, rfl⟩ := gives_pure.mp h
    have hempty : data.size = 0 := by
      rw [hzero, Nat.zero_mul] at hdata
      exact Nat.le_zero.mp hdata
    have hstores : m.Stores reserved.options [] data.size (byteAt data) := by
      rw [hempty]
      exact .empty m _ _
    obtain ⟨hplace, hown⟩ := slot_of_gained hslot (.refl reserved) hs
    rw [← hslot.options]
    exact writtenFile_spec hslot.sound (by rwa [hslot.options]) hstores (by decide) hsize (by simp)
      hfork hwrite hk (fun hi => hspared (Or.inl hi)) hplace hown
  · rename_i hsome
    obtain ⟨address, mid, htake, h⟩ := gives_bind.mp h
    obtain ⟨u, placed, hfill, h⟩ := gives_bind.mp h
    rw [pure_bind] at h
    obtain ⟨fork, left, hfork, h⟩ := gives_bind.mp h
    obtain ⟨u', written, hwrite, h⟩ := gives_bind.mp h
    obtain ⟨rfl, rfl⟩ := gives_pure.mp h
    obtain ⟨hplaced, hgrows, hblocks⟩ := plainBlocks_spec hslot.sound htake hfill
      (Nat.pos_of_ne_zero hsome) (by rw [startBits]; omega) hdata
    obtain ⟨hplace, hown⟩ := slot_of_gained hslot hgrows hs
    have hoptions : placed.options = b.options := hgrows.options.trans hslot.options
    obtain ⟨-, hkPlaced⟩ := keeps_of_writeMapped hplaced hfork hwrite hk
    rw [hoptions] at hkPlaced
    have hstores := hblocks hkPlaced hspared
    rw [← hgrows.options] at hstores
    rw [← hoptions]
    exact writtenFile_spec hplaced (by rwa [hoptions]) hstores (show 1 < UInt32.size by decide)
      hsize (by simp) hfork hwrite hk (fun hi => hgrows.owns (hspared (Or.inl hi))) hplace hown

theorem addPatterned_spec {size : Nat} {drafts : List ExtentDraft} {shape : Option TreeShape}
    (hb : b.Sound) (hbounded : b.options.Bounded)
    (h : Gives (addPatterned size drafts shape) b ino b') (hk : m.Keeps spare b')
    (hs : ∀ {i}, spare i → b.Owns i) (hsize : size < UInt64.size)
    (hends : ∀ d ∈ drafts, d.start + d.count ≤ 2 ^ startBits)
    (hlevel : ∀ s, shape = some s → b.options.treeLevel s drafts.length < maxTreeDepth) :
    m.HoldsFile b.options ino size (patternedByte drafts) := by
  rw [addPatterned] at h
  obtain ⟨slot, reserved, hreserve, h⟩ := gives_bind.mp h
  obtain ⟨extents, placed, hextents, h⟩ := gives_bind.mp h
  obtain ⟨fork, left, hfork, h⟩ := gives_bind.mp h
  obtain ⟨count, hcount, h⟩ := gives_liftM_bind.mp h
  obtain ⟨u, written, hwrite, h⟩ := gives_bind.mp h
  obtain ⟨rfl, rfl⟩ := gives_pure.mp h
  have hslot := gainedSlot_of_gives hreserve hb
  have hspared {i : Nat} (hi : spare i ∨ b.options.InSlot ino i) := spared_of_gained hslot hs hi
  obtain ⟨hplaced, hgrows⟩ := frames_patternedExtents.of_gives hslot.sound hextents
  obtain ⟨hplace, hown⟩ := slot_of_gained hslot hgrows hs
  have hoptions : placed.options = b.options := hgrows.options.trans hslot.options
  obtain ⟨hfew, rfl⟩ := fitting_eq_ok.mp hcount
  obtain ⟨-, hkPlaced⟩ := keeps_of_writeMapped hplaced hfork hwrite hk
  rw [hoptions] at hkPlaced
  obtain ⟨hsame, hpatterned, horder, -⟩ :=
    patternedExtents_spec hslot.sound hextents hkPlaced hspared
  rw [← hgrows.options] at hpatterned
  have hstops : ∀ e ∈ extents, e.start + e.count ≤ 2 ^ startBits := fun e he =>
    hends e.asked (hsame ▸ List.mem_map_of_mem he)
  have hstores := Medium.stores_patterned hpatterned horder hstops size
  have hlength : extents.length = drafts.length := by
    rw [← hsame, List.length_map]
  rw [hsame] at hstores
  rw [← hoptions, ← hlength] at hlevel
  rw [← hoptions]
  exact writtenFile_spec hplaced (by rwa [hoptions]) hstores hfew hsize hlevel hfork hwrite hk
    (fun hi => hgrows.owns (hspared (Or.inl hi))) hplace hown

theorem addDraft_spec {file : FileDraft} (hb : b.Sound) (hbounded : b.options.Bounded)
    (h : Gives file.add b ino b')
    (hk : m.Keeps spare b') (hs : ∀ {i}, spare i → b.Owns i) (hfits : file.Fits b.options) :
    m.HoldsFile b.options ino file.size file.byte := by
  cases file with
  | plain data => exact addFile_spec hb hbounded h hk hs
  | patterned size drafts shape =>
    obtain ⟨hsize, hends, hlevel⟩ := hfits
    exact addPatterned_spec hb hbounded h hk hs hsize hends hlevel

theorem makesInode_addDraft (file : FileDraft) : MakesInode file.add := by
  cases file with
  | plain data => exact makesInode_addFile data
  | patterned size drafts shape => exact makesInode_addPatterned size drafts shape

/-- A file with holes, a written and an unwritten extent is made in an empty volume of one small
group. -/
theorem gives_addPatterned_list : ∃ b,
    Gives (addPatterned 20000 [⟨1, 1, false⟩, ⟨3, 1, true⟩] none)
      (Builder.empty { agBlocks := 16, agCount := 1 }) 8 b := by
  obtain ⟨o, ho⟩ : ∃ o : ImageOptions, o = { agBlocks := 16, agCount := 1 } := ⟨_, rfl⟩
  rw [← ho]
  obtain ⟨mid, hmid, hreserve, hoptions, hsound⟩ := gives_reserve_small ho
  obtain ⟨placed, hextents⟩ : ∃ placed,
      Gives (patternedExtents none [⟨1, 1, false⟩, ⟨3, 1, true⟩]) mid
        [{ start := 1, address := 2, count := 1, unwritten := false },
          { start := 3, address := 3, count := 1, unwritten := true }] placed := by
    subst hmid ho
    exact ⟨_, rfl⟩
  have hframe : Frames (fun _ => False)
      (patternedExtents none [⟨1, 1, false⟩, ⟨3, 1, true⟩]) mid := frames_patternedExtents
  obtain ⟨hplaced, hgrows⟩ := hframe.of_gives hsound hextents
  have hsize := hplaced.size
  have hroom : 2 * 16 ≤ o.literalLength ∧
      o.inodeOffset 8 + o.inodeSize ≤ o.totalBlocks * imageBlockSize := by
    subst ho
    decide
  rw [← hoptions, ← hgrows.options] at hroom
  rw [← hsize] at hroom
  exact ⟨_, gives_bind.mpr ⟨8, mid, hreserve, gives_bind.mpr ⟨_, placed, hextents,
    gives_bind.mpr ⟨_, placed, gives_writeFork_list hroom.1, gives_liftM_bind.mpr ⟨2, rfl,
      gives_bind.mpr ⟨(), _, gives_writeInode.mpr ⟨hroom.1, hroom.2, rfl⟩,
        gives_pure.mpr ⟨rfl, rfl⟩⟩⟩⟩⟩⟩⟩

/-- **File round trip.** A regular file is added to a volume that a caller builds, after any steps
and before any others that leave it alone. However the finished volume is mounted, a read of the
file gives its bytes from `offset` on, as many of the `len` asked for as the file has. -/
theorem addFile_roundTrip {file : FileDraft} {o : ImageOptions} {made before after left : Builder}
    {known known' : List Nat} {image : ByteArray} {options : MountOptions}
    (hmade : Builder.ofOptions o = .ok made) (hblocks : o.agBlocks ≤ 2 ^ 20)
    (hcount : o.agCount ≤ 2 ^ 20) (hbefore : made.Reaches [] before known) (hfits : file.Fits o)
    (hfile : Gives file.add before ino b) (hafter : b.Reaches known after known')
    (hfinish : Gives finish after image left) :
    ((∀ root, after.root = some root → options.skipValidation = false →
        (root % UInt64.size) >>> o.inodeBits < o.agCount) →
      ∃ v, Volume.mountBytes image options = .ok v) ∧
    ∀ v, Volume.mountBytes image options = .ok v → ∀ offset len, ∃ piece,
      v.readContents ino offset len = .ok piece ∧
        piece.size = Volume.readCount file.size offset len ∧
        ∀ i < piece.size, byteAt piece i = file.byte (offset + i) := by
  have hbounded : o.Bounded := ⟨(Builder.ofOptions_eq_ok.mp hmade).1, hblocks, hcount⟩
  obtain ⟨hsound, hoptions, hmounts, hkeeps⟩ := finished_of_step (makesInode_addDraft file) hmade
    hbounded.inMemory hbefore hfile hafter hfinish
  refine ⟨hmounts, fun v hmount offset len => ?_⟩
  obtain ⟨spare, hk, hspare⟩ := hkeeps v hmount
  rw [← hoptions] at hfits hbounded
  have hholds := addDraft_spec hsound hbounded hfile hk hspare hfits
  have hframe : Frames (fun _ => False) file.add before :=
    (makesInode_addDraft file).frames _ before
  rw [← (hframe.of_gives hsound hfile).2.options] at hholds
  exact Volume.readContents_of_holds hk hholds offset len

/-- The last byte before a written block of a file and the first byte in it. -/
theorem addFile_roundTrip_patterned : ∃ image v piece, Volume.mountBytes image {} = .ok v ∧
    v.readContents 8 4095 2 = .ok piece ∧ piece.size = 2 ∧ byteAt piece 0 = 0 ∧
      byteAt piece 1 = 2 := by
  obtain ⟨b, hfile⟩ := gives_addPatterned_list
  have hmade : Builder.ofOptions { agBlocks := 16, agCount := 1 } =
      .ok (Builder.empty { agBlocks := 16, agCount := 1 }) := rfl
  have hfinish : Gives finish (after (BuildStep.setRoot 8).run b)
      (overwrite b.image 0 (b.options.superblock 8)) _ := rfl
  have hfits : (FileDraft.patterned 20000 [⟨1, 1, false⟩, ⟨3, 1, true⟩] none).Fits
      { agBlocks := 16, agCount := 1 } := ⟨by decide, by decide, by simp⟩
  obtain ⟨hmounts, hreads⟩ := addFile_roundTrip hmade (by decide) (by decide) .refl hfits hfile
    (.step .refl (.setRoot 8) (by decide)) hfinish
  obtain ⟨v, hmount⟩ := hmounts fun root hroot _ => by
    cases hroot
    decide
  obtain ⟨piece, hread, hsize, hbytes⟩ := hreads v hmount 4095 2
  have hcount : piece.size = 2 := hsize
  refine ⟨_, v, piece, hmount, hread, hcount, ?_, ?_⟩
  · rw [hbytes 0 (by omega)]
    decide
  · rw [hbytes 1 (by omega)]
    decide

end BuildM

end XfsVolume
