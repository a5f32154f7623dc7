import XfsVolume.Proofs.Image.OnMedium
import XfsVolume.Proofs.Image.Reaching
import XfsVolume.Proofs.Image.Superblock

/-!
# Finished volumes

A volume is finished by writing its superblock over the first sector, which is never handed out. It
can be mounted then, and shows whatever was handed out while it was built: what one step left, the
steps after it keep (`BuildM.finished_of_step`).
-/

namespace XfsVolume

/-! ## Mounting bytes -/

namespace Volume

/-- Bytes that start with the superblock and are as long as it says are mounted, if the root's
number names a group of the volume or the superblock is taken as it stands. -/
theorem mountBytes_of_heads {o : ImageOptions} {root : Nat} {bytes : ByteArray}
    {options : MountOptions} (ho : o.InMemory)
    (hsize : bytes.size = o.totalBlocks * imageBlockSize) (hheads : o.Heads root bytes)
    (hroot : options.skipValidation = false →
      (root % UInt64.size) >>> o.inodeBits < o.agCount) :
    ∃ v, mountBytes bytes options = .ok v ∧ v.device = ⟨bytes, imageBlockSize⟩ ∧
      v.geometry = o.geometry root ∧ v.cacheSlots = options.cacheSlots := by
  have hdevice : Device.ofBytes bytes imageBlockSize = .ok ⟨bytes, imageBlockSize⟩ := by
    refine Device.ofBytes_eq_ok.mpr ⟨by decide, ?_, rfl⟩
    rw [hsize, Nat.mul_mod_left]
  obtain ⟨v, hmount, hparts⟩ : ∃ v, mount ⟨bytes, imageBlockSize⟩ options = .ok v ∧
      v.device = ⟨bytes, imageBlockSize⟩ ∧ v.geometry = o.geometry root ∧
      v.cacheSlots = options.cacheSlots := mount_of_heads ho rfl hsize hheads hroot
  exact ⟨v, mountBytes_eq_ok.mpr ⟨_, hdevice, hmount⟩, hparts⟩

end Volume

/-! ## Finishing -/

/-- No byte of the first block is handed out. -/
theorem Builder.Owns.behind {b : Builder} {i : Nat} (h : b.Owns i) : imageBlockSize ≤ i := by
  obtain ⟨next, -, hpos, -⟩ := h
  by_contra hlt
  rw [Nat.div_eq_of_lt (Nat.not_le.mp hlt), Nat.zero_mod] at hpos
  exact Nat.not_succ_le_zero 0 hpos

namespace BuildM

open Builder

variable {b b' : Builder} {image : ByteArray}

theorem image_of_finish (h : Gives finish b image b') : ∃ root, b.root = some root ∧
    image = overwrite b.image 0 (b.options.superblock root) := by
  rw [finish, gives_bind] at h
  obtain ⟨_, mid, hget, h⟩ := h
  obtain ⟨rfl, rfl⟩ := gives_get.mp hget
  cases hroot : mid.root with
  | none =>
    rw [hroot] at h
    exact (gives_throw.mp h).elim
  | some root =>
    rw [hroot] at h
    dsimp only at h
    rw [gives_options_bind, gives_bind] at h
    obtain ⟨_, written, hwrite, h⟩ := h
    obtain rfl := gives_writeAt.mp hwrite
    rw [gives_bind] at h
    obtain ⟨_, _, hafter, h⟩ := h
    obtain ⟨rfl, rfl⟩ := gives_get.mp hafter
    obtain ⟨rfl, -⟩ := gives_pure.mp h
    exact ⟨root, rfl, rfl⟩

/-- A volume with a root can be finished. -/
theorem gives_finish {root : Nat} (hroot : b.root = some root) :
    ∃ left, Gives finish b (overwrite b.image 0 (b.options.superblock root)) left := by
  obtain ⟨left, hleft⟩ : ∃ left : Builder, left =
      { b with image := overwrite b.image 0 (b.options.superblock root) } := ⟨_, rfl⟩
  refine ⟨left, gives_bind.mpr ⟨b, b, gives_get.mpr ⟨rfl, rfl⟩, ?_⟩⟩
  rw [hroot]
  refine gives_options_bind.mpr (gives_bind.mpr ⟨(), left, gives_writeAt.mpr hleft, ?_⟩)
  exact gives_bind.mpr ⟨left, left, gives_get.mpr ⟨rfl, rfl⟩, gives_pure.mpr ⟨by rw [hleft], rfl⟩⟩

theorem heads_finished (hb : b.Sound) (root : Nat) :
    0 + (b.options.superblock root).size ≤ b.image.size ∧
      b.options.Heads root (overwrite b.image 0 (b.options.superblock root)) := by
  have hsector := ImageOptions.size_superblock b.options root
  have hin : 0 + (b.options.superblock root).size ≤ b.image.size := by
    have hblocks := hb.accepted.totalBlocks_pos
    rw [hsector, hb.size, sectorSize, imageBlockSize]
    omega
  refine ⟨hin, ?_, fun i hi => ?_⟩
  · rw [size_overwrite hin]
    omega
  · rw [byteAt_overwrite hin, if_pos ⟨Nat.zero_le i, by omega⟩, Nat.sub_zero]

/-- A finished volume is mounted, if the root's number names a group of it or the superblock is
taken as it stands, and shows whatever was handed out. -/
theorem mount_finished (hb : b.Sound) (ho : b.options.InMemory) (h : Gives finish b image b')
    {options : MountOptions} (hroot : ∀ root, b.root = some root →
      options.skipValidation = false →
        (root % UInt64.size) >>> b.options.inodeBits < b.options.agCount) :
    ∃ v, Volume.mountBytes image options = .ok v ∧ v.cacheSlots = options.cacheSlots ∧
      (∃ root, b.root = some root ∧ v.geometry = b.options.geometry root) ∧
      v.toMedium.Keeps (fun _ => False) b := by
  obtain ⟨root, hsome, rfl⟩ := image_of_finish h
  obtain ⟨hin, hheads⟩ := heads_finished hb root
  have hsize : (overwrite b.image 0 (b.options.superblock root)).size =
      b.options.totalBlocks * imageBlockSize := (size_overwrite hin).trans hb.size
  obtain ⟨v, hmount, hdevice, hgeometry, hslots⟩ :=
    Volume.mountBytes_of_heads ho hsize hheads (hroot root hsome)
  refine ⟨v, hmount, hslots, ⟨root, hsome, hgeometry⟩, ho, ?_, ?_, ?_, fun {i} hi _ => ?_⟩
  · rw [hgeometry]
    exact ho.measures_geometry root
  · rw [hdevice]
  · rw [hdevice]
    exact hsize
  · have hbehind := hi.behind
    rw [hdevice, byteAt_overwrite hin, if_neg]
    rintro ⟨-, hlt⟩
    rw [ImageOptions.size_superblock, sectorSize] at hlt
    rw [imageBlockSize] at hbehind
    omega

theorem keeps_of_mount (hb : b.Sound) (ho : b.options.InMemory) (h : Gives finish b image b')
    {options : MountOptions} {v : Volume} (hmount : Volume.mountBytes image options = .ok v) :
    v.toMedium.Keeps (fun _ => False) b := by
  have hskips : ∀ root, b.root = some root →
      ({ options with skipValidation := true } : MountOptions).skipValidation = false →
        (root % UInt64.size) >>> b.options.inodeBits < b.options.agCount :=
    fun _ _ hskip => nomatch hskip
  obtain ⟨w, hw, -, -, hkeeps⟩ := mount_finished hb ho h hskips
  rw [Volume.mountBytes_unchecked hmount] at hw
  cases hw
  exact hkeeps

/-- A step that makes an inode is taken after any steps and before any others that leave the inode
alone. The volume that is finished in the end can be mounted, and however that is done, it keeps
what the step left, but for bytes that were handed out before the step. -/
theorem finished_of_step {o : ImageOptions} {x : BuildM Nat} {made before after left : Builder}
    {known known' : List Nat} {options : MountOptions} {ino : Nat} (hx : MakesInode x)
    (hmade : Builder.ofOptions o = .ok made) (hmemory : o.InMemory)
    (hbefore : made.Reaches [] before known) (hstep : Gives x before ino b)
    (hafter : b.Reaches known after known') (hfinish : Gives finish after image left) :
    before.Sound ∧ before.options = o ∧
      ((∀ root, after.root = some root → options.skipValidation = false →
          (root % UInt64.size) >>> o.inodeBits < o.agCount) →
        ∃ v, Volume.mountBytes image options = .ok v) ∧
      ∀ v, Volume.mountBytes image options = .ok v →
        ∃ spare, v.toMedium.Keeps spare b ∧ ∀ {i}, spare i → before.Owns i := by
  obtain ⟨haccepted, -, rfl⟩ := Builder.ofOptions_eq_ok.mp hmade
  have hkept := hbefore.kept (sound_empty haccepted) (by simp)
  have hoptions : before.options = o := hkept.grows.options
  have hframe : Frames (fun _ => False) x before := hx.frames _ before
  obtain ⟨hsound, hgrows⟩ := hframe.of_gives hkept.sound hstep
  have hknown : ∀ ino ∈ known, ∀ {i}, b.options.InSlot ino i → before.Owns i := by
    intro ino hin i hi
    rw [hgrows.options, hoptions] at hi
    exact hkept.owned ino hin hi
  have hkeptAfter := hafter.kept hsound fun ino hin _ hi => hgrows.owns (hknown ino hin hi)
  have hoptionsAfter : after.options = o :=
    hkeptAfter.grows.options.trans (hgrows.options.trans hoptions)
  have hinMemory : after.options.InMemory := by
    rw [hoptionsAfter]
    exact hmemory
  refine ⟨hkept.sound, hoptions, fun hroot => ?_, fun v hmount => ?_⟩
  · rw [← hoptionsAfter] at hroot
    obtain ⟨v, hmount, -⟩ := mount_finished hkeptAfter.sound hinMemory hfinish hroot
    exact ⟨v, hmount⟩
  · have hkeeps := (keeps_of_mount hkeptAfter.sound hinMemory hfinish hmount).back hkeptAfter.grows
    refine ⟨_, hkeeps, fun hi => ?_⟩
    obtain ⟨ino, hin, hi⟩ := hi.resolve_left id
    exact hknown ino hin hi

/-! ### A small volume -/

/-- The first inode of an empty volume of one small group takes the block behind the headers. -/
theorem gives_reserve_small {o : ImageOptions} (ho : o = { agBlocks := 16, agCount := 1 }) :
    ∃ mid : Builder, mid = { Builder.empty o with
        nextBlocks := #[2], inodeBlocks := #[some (1, 1)] } ∧
      Gives reserve (Builder.empty o) 8 mid ∧ mid.options = o ∧ mid.Sound := by
  have haccepted : o.Accepted := by
    subst ho
    constructor <;> decide
  have hreserve : Gives reserve (Builder.empty o) 8 { Builder.empty o with
      nextBlocks := #[2], inodeBlocks := #[some (1, 1)] } := by
    subst ho
    rfl
  exact ⟨_, rfl, hreserve, rfl, (gainedSlot_of_gives hreserve (sound_empty haccepted)).sound⟩

end BuildM

end XfsVolume
