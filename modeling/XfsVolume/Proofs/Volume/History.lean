import XfsVolume.Proofs.Directory.CachedLookups
import XfsVolume.Proofs.Image.RoundTrip
import XfsVolume.Volume.Attributes
import XfsVolume.Volume.Path
import XfsVolume.Volume.Symlink

/-!
# Volumes with a history

A mounted volume is asked one question after the other, and each leaves its cache to the next. What
was asked before is not seen in an answer: each question is steady, so that the cache agrees with the
device after any history, and two volumes mounted on the same bytes answer every question alike,
whatever room their caches have and whatever either was asked before.
-/

namespace XfsVolume

/-- What a mounted volume can be asked. -/
inductive Question
  | format (ino : Nat)
  | lookup (parent : Nat) (name : Name)
  | childAttributes (parent : Nat) (name : Name)
  | entryAfter (ino : Nat) (cursor : DirCursor)
  | listAfter (ino : Nat) (cursor : DirCursor)
  | listAll (ino : Nat)
  | resolve (path : String)
  | attributes (ino : Nat)
  | place (ino logical : Nat)
  | extents (ino : Nat)
  | contents (ino offset len : Nat)
  | target (ino : Nat)

/-- What a question is answered with, if all is well. -/
abbrev Question.Answer : Question → Type
  | format _ => DirFormat
  | lookup .. => Option (Nat × FileKind)
  | childAttributes .. | attributes _ => Attributes
  | entryAfter .. => Option (DirEntry × DirCursor)
  | listAfter .. => List (DirEntry × DirCursor)
  | listAll _ => List DirEntry
  | resolve _ => Nat × Inode
  | place .. => Place
  | extents _ => List Extent
  | contents .. | target _ => ByteArray

namespace Volume

/-- Asks a volume a question. Only questions about names and entries read through the cache. -/
def ask (v : Volume) : (q : Question) → CacheM q.Answer
  | .format ino => liftM (v.formatOf ino)
  | .lookup parent name => v.lookup parent name
  | .childAttributes parent name => v.childAttributes parent name
  | .entryAfter ino cursor => v.entryAfter ino cursor
  | .listAfter ino cursor => v.listAfter ino cursor
  | .listAll ino => v.listAll ino
  | .resolve path => v.resolve path
  | .attributes ino => liftM (v.attributes ino)
  | .place ino logical => liftM (v.placeOf ino logical)
  | .extents ino => liftM (v.extentsOf ino)
  | .contents ino offset len => liftM (v.readContents ino offset len)
  | .target ino => liftM (v.readLink ino)

def answer (v : Volume) (cache : BlockCache) (q : Question) : Except Fault q.Answer :=
  ((v.ask q).run.run cache).1

def cacheAfter (v : Volume) (cache : BlockCache) (q : Question) : BlockCache :=
  ((v.ask q).run.run cache).2

/-- The cache of a volume that was asked `history`, oldest question first, since it was mounted. -/
def cacheOf (v : Volume) (history : List Question) : BlockCache :=
  history.foldl v.cacheAfter v.emptyCache

variable {v w : Volume}

/-! ## Every question is steady -/

theorem steady_lookup (v : Volume) (parent : Nat) (name : Name) :
    Steady v.device (v.lookup parent name) := by
  rw [lookup]
  refine steady_bind (steady_liftM _) fun dir => ?_
  refine steady_bind (v.steady_lookupName dir name) fun found => ?_
  rcases found with - | ⟨ino, recorded⟩
  · exact steady_pure _
  · exact steady_bind (steady_liftM _) fun kind => steady_pure _

theorem steady_childAttributes (v : Volume) (parent : Nat) (name : Name) :
    Steady v.device (v.childAttributes parent name) := by
  rw [childAttributes]
  refine steady_bind (v.steady_lookup parent name) fun found => ?_
  rcases found with - | ⟨ino, kind⟩
  · exact steady_throw _
  · exact steady_liftM _

theorem steady_nextKnown (v : Volume) (format : DirFormat) (dir : Inode) (cursor : DirCursor) :
    Steady v.device (v.nextKnown format dir cursor) := by
  rw [nextKnown]
  refine steady_bind (v.steady_nextEntryAs format dir cursor) fun found => ?_
  rcases found with - | ⟨entry, next⟩
  · exact steady_pure _
  · exact steady_bind (steady_liftM _) fun kind => steady_pure _

theorem steady_entryAfter (v : Volume) (ino : Nat) (cursor : DirCursor) :
    Steady v.device (v.entryAfter ino cursor) := by
  rw [entryAfter]
  refine steady_bind (steady_liftM _) fun dir => ?_
  exact steady_bind (steady_liftM _) fun format => v.steady_nextKnown format dir cursor

theorem steady_listAfter (v : Volume) (ino : Nat) (cursor : DirCursor) :
    Steady v.device (v.listAfter ino cursor) := by
  rw [listAfter]
  refine steady_bind (steady_liftM _) fun dir => ?_
  refine steady_bind (steady_liftM _) fun format => ?_
  exact Medium.steady_listFrom (v.steady_nextKnown format dir) _ _ _

theorem steady_listAll (v : Volume) (ino : Nat) : Steady v.device (v.listAll ino) := by
  rw [listAll]
  exact steady_bind (v.steady_listAfter ino 0) fun entries => steady_pure _

theorem steady_walk (v : Volume) : ∀ (components : List String) (ino : Nat) (inode : Inode),
    Steady v.device (v.walk components ino inode)
  | [], _, _ => steady_pure _
  | component :: rest, _, inode => by
      rw [walk]
      refine steady_guard _ fun _ => ?_
      refine steady_bind (v.steady_lookupName inode _) fun found => ?_
      rcases found with - | ⟨next, kind⟩
      · exact steady_throw _
      · exact steady_bind (steady_liftM _) fun inode => steady_walk v rest next inode

theorem steady_resolve (v : Volume) (path : String) : Steady v.device (v.resolve path) := by
  rw [resolve]
  refine steady_guard _ fun _ => ?_
  exact steady_bind (steady_liftM _) fun inode => v.steady_walk _ _ inode

theorem steady_ask (v : Volume) (q : Question) : Steady v.device (v.ask q) := by
  cases q with
  | format | attributes | place | extents | contents | target => exact steady_liftM _
  | lookup parent name => exact v.steady_lookup parent name
  | childAttributes parent name => exact v.steady_childAttributes parent name
  | entryAfter ino cursor => exact v.steady_entryAfter ino cursor
  | listAfter ino cursor => exact v.steady_listAfter ino cursor
  | listAll ino => exact v.steady_listAll ino
  | resolve path => exact v.steady_resolve path

/-! ## Histories -/

theorem cacheAfter_agrees {cache : BlockCache} (h : cache.Agrees v.device) (q : Question) :
    (v.cacheAfter cache q).Agrees v.device := (v.steady_ask q cache h).2

theorem foldl_cacheAfter_agrees : ∀ (history : List Question) {cache : BlockCache},
    cache.Agrees v.device → (history.foldl v.cacheAfter cache).Agrees v.device
  | [], _, h => h
  | q :: history, _, h => foldl_cacheAfter_agrees history (cacheAfter_agrees h q)

theorem cacheOf_agrees (v : Volume) (history : List Question) :
    (v.cacheOf history).Agrees v.device :=
  foldl_cacheAfter_agrees history (BlockCache.agrees_withCapacity _ _)

/-- An answer is that of a volume that was asked nothing before. -/
theorem answer_eq_fresh (v : Volume) (history : List Question) (q : Question) :
    v.answer (v.cacheOf history) q = fresh (v.ask q) :=
  (v.steady_ask q _ (v.cacheOf_agrees history)).1

/-! ## One image, two volumes -/

/-- `v` was mounted on `image`: from its bytes, or from a device that holds them. -/
def MountedOn (v : Volume) (image : ByteArray) : Prop :=
  ∃ options, mountBytes image options = .ok v ∨
    ∃ dev : Device, dev.bytes = image ∧ mount dev options = .ok v

theorem MountedOn.device_eq {image : ByteArray} (h : v.MountedOn image) :
    v.device = ⟨image, supportedBlockSize⟩ ∧ ∃ options, mount v.device options = .ok v := by
  obtain ⟨options, hbytes | ⟨dev, rfl, hmount⟩⟩ := h
  · obtain ⟨dev, hdev, hmount⟩ := mountBytes_eq_ok.mp hbytes
    obtain ⟨-, -, rfl⟩ := Device.ofBytes_eq_ok.mp hdev
    rw [(parts_of_mount hmount).1]
    exact ⟨rfl, options, hmount⟩
  · obtain ⟨hdevice, -, -, -, -, -, hblock, -⟩ := parts_of_mount hmount
    rw [hdevice]
    exact ⟨by rw [← hblock], options, hmount⟩

theorem MountedOn.eq_but_cache {image : ByteArray} (hv : v.MountedOn image)
    (hw : w.MountedOn image) : v = { w with cacheSlots := v.cacheSlots } := by
  obtain ⟨hvdev, voptions, hvmount⟩ := hv.device_eq
  obtain ⟨hwdev, woptions, hwmount⟩ := hw.device_eq
  have hdev : v.device = w.device := hvdev.trans hwdev.symm
  rw [hdev] at hvmount
  obtain ⟨-, -, -, ⟨vblock, hvblock, hvsb⟩, hvgeo, -⟩ := parts_of_mount hvmount
  obtain ⟨-, -, -, ⟨wblock, hwblock, hwsb⟩, hwgeo, -⟩ := parts_of_mount hwmount
  have hblock : vblock = wblock := Except.ok.inj (hvblock.symm.trans hwblock)
  subst hblock
  have hsb : v.superblock = w.superblock := Except.ok.inj (hvsb.symm.trans hwsb)
  rw [hsb] at hvgeo
  have hgeo : v.geometry = w.geometry := Except.ok.inj (hvgeo.symm.trans hwgeo)
  obtain ⟨⟨vd, vg⟩, vs, vc⟩ := v
  obtain ⟨⟨wd, wg⟩, ws, wc⟩ := w
  cases hdev
  cases hsb
  cases hgeo
  rfl

/-! ## Look-ups in block directories -/

theorem cacheOf_lookups {start : Nat → Nat} (lookups : List (Nat × Name))
    (h : ∀ q ∈ lookups, Requests v.device (start q.1) 1 (v.lookup q.1 q.2)) :
    v.cacheOf (lookups.map fun q => .lookup q.1 q.2) =
      v.emptyCache.after (lookups.map fun q => .get v.device (start q.1) 1) := by
  rw [cacheOf]
  generalize v.emptyCache = cache
  induction lookups generalizing cache with
  | nil => rfl
  | cons q rest ih =>
    obtain ⟨hfirst, hrest⟩ := List.forall_mem_cons.mp h
    rw [List.map_cons, List.map_cons, List.foldl_cons, ih hrest, BlockCache.after, ← hfirst cache]
    rfl

theorem stats_after_three {dev : Device} {s t u : Nat} {x y z : ByteArray}
    (hs : dev.readBlocks s 1 = .ok x) (ht : dev.readBlocks t 1 = .ok y)
    (hu : dev.readBlocks u 1 = .ok z) (hst : s ≠ t) (hsu : s ≠ u) (htu : t ≠ u) :
    ((BlockCache.withCapacity 2).after [.get dev s 1, .get dev t 1, .get dev t 1,
      .get dev u 1]).stats = { hits := 1, misses := 3, evictions := 1 } := by
  simp [BlockCache.after, BlockCache.get, BlockCache.find?, BlockCache.insert, BlockCache.makeRoom,
    BlockCache.miss, BlockCache.hit, BlockCache.withCapacity, hs, ht, hu, hst, hsu, htu]

theorem HoldsDir.namesItself {ino parent : Nat} {entries : List (Name × Nat)}
    (h : v.HoldsDir ino parent entries) : ∃ dir, v.NamesItself ino dir := by
  obtain ⟨inode, hread, hnames⟩ := h
  exact ⟨inode, hread, hnames.classified,
    hnames.found (BlockCache.agrees_withCapacity _ _) _ List.mem_cons_self⟩

/-- The directory `a` and its sibling are looked at, and then the root: a cache for two directory
blocks has to give one of them up. -/
theorem HoldsThreeDirs.stats (h : v.HoldsThreeDirs) (hslots : v.cacheSlots = 2) :
    (v.cacheOf [.lookup 9 dotName, .lookup 10 dotName, .lookup 10 dotName,
      .lookup 8 [97]]).stats = { hits := 1, misses := 3, evictions := 1 } := by
  have hnames : ∀ ino ∈ [8, 9, 10], ∃ dir, v.NamesItself ino dir := by
    simp only [List.forall_mem_cons]
    exact ⟨h.top.namesItself, h.first.namesItself, h.second.namesItself, by simp⟩
  obtain ⟨start, hasked, hapart⟩ := exists_starts h.blocksPerDirBlock hnames
  obtain ⟨⟨x, hx⟩, hroot⟩ := hasked 8 (by decide)
  obtain ⟨⟨y, hy⟩, hfirst⟩ := hasked 9 (by decide)
  obtain ⟨⟨z, hz⟩, hsecond⟩ := hasked 10 (by decide)
  have hcache : v.cacheOf ([(9, dotName), (10, dotName), (10, dotName), (8, [97])].map
      fun q => .lookup q.1 q.2) = v.emptyCache.after _ := cacheOf_lookups _ <| by
    simp only [List.forall_mem_cons]
    exact ⟨hfirst _ (by decide) (by decide), hsecond _ (by decide) (by decide),
      hsecond _ (by decide) (by decide), hroot _ (by decide) (by decide), by simp⟩
  rw [emptyCache, hslots] at hcache
  refine (congrArg BlockCache.stats hcache).trans (stats_after_three hy hz hx ?_ ?_ ?_)
  · exact fun heq => absurd (hapart 9 (by decide) 10 (by decide) heq) (by decide)
  · exact fun heq => absurd (hapart 9 (by decide) 8 (by decide) heq) (by decide)
  · exact fun heq => absurd (hapart 10 (by decide) 8 (by decide) heq) (by decide)

theorem exists_entryKind {ino : Nat} {inode : Inode} (hread : v.readInode ino = .ok inode)
    (recorded : FileKind) : ∃ kind, v.entryKind ino recorded = .ok kind := by
  rw [entryKind]
  split
  · exact ⟨recorded, rfl⟩
  · exact ⟨inode.kind, bind_eq_ok.mpr ⟨inode, hread, rfl⟩⟩

theorem HoldsDir.fresh_lookup {ino parent next : Nat} {entries : List (Name × Nat)} {name : Name}
    {inode : Inode} (h : v.HoldsDir ino parent entries) (hentry : (name, next) ∈ entries)
    (hread : v.readInode next = .ok inode) :
    ∃ kind, fresh (v.lookup ino name) = .ok (some (next, kind)) := by
  obtain ⟨dir, hdir, hnames⟩ := h
  obtain ⟨recorded, hfound⟩ := hnames.found (BlockCache.agrees_withCapacity defaultCacheSlots _)
    (name, next) (List.mem_cons_of_mem _ (List.mem_cons_of_mem _ hentry))
  have hfound : fresh (v.lookupName dir name) = .ok (some (next, recorded)) := hfound
  obtain ⟨kind, hkind⟩ := exists_entryKind hread recorded
  refine ⟨kind, ?_⟩
  rw [lookup, fresh_liftM_bind, hdir, ok_bind,
    fresh_bind_ok (v.steady_lookupName dir name) ?_ hfound]
  · rw [fresh_liftM_bind, hkind]
    rfl
  · rintro (- | ⟨found, recorded⟩)
    · exact steady_pure _
    · exact steady_bind (steady_liftM _) fun kind => steady_pure _

/-! ## The room of a cache -/

section CacheSlots

variable (v : Volume) (slots : Nat)

theorem walk_cacheSlots : ∀ (components : List String) (ino : Nat) (inode : Inode),
    ({ v with cacheSlots := slots }).walk components ino inode = v.walk components ino inode
  | [], _, _ => rfl
  | component :: rest, _, inode => by
      rw [walk, walk]
      simp only [walk_cacheSlots rest]

theorem readPieces_cacheSlots (inode : Inode) (offset remaining : Nat) :
    ({ v with cacheSlots := slots }).readPieces inode offset remaining =
      v.readPieces inode offset remaining := by
  induction remaining using Nat.strongRecOn generalizing offset with
  | ind remaining ih =>
    have hrun : ({ v with cacheSlots := slots }).readRun inode offset remaining =
        v.readRun inode offset remaining := rfl
    rw [readPieces, readPieces.eq_def v, hrun]
    congr 1
    cases v.readRun inode offset remaining with
    | error fault => rfl
    | ok piece =>
      rw [ok_bind, ok_bind]
      split
      · rw [ih _ (by omega)]
      · rfl

theorem readTargetPieces_cacheSlots (inode : Inode) (logical offset remaining : Nat) :
    ({ v with cacheSlots := slots }).readTargetPieces inode logical offset remaining =
      v.readTargetPieces inode logical offset remaining := by
  induction remaining using Nat.strongRecOn generalizing logical offset with
  | ind remaining ih =>
    rw [readTargetPieces, readTargetPieces.eq_def v]
    split
    · rfl
    · refine bind_congr fun mapping => bind_congr fun block => ?_
      have hheader : ({ v with cacheSlots := slots }).linkHeader = v.linkHeader := rfl
      rw [hheader]
      by_cases hc : min remaining (block.size - v.linkHeader) = 0
      · rw [dif_pos hc, dif_pos hc]
      · rw [dif_neg hc, dif_neg hc]
        simp only [ih (remaining - min remaining (block.size - v.linkHeader)) (by omega)]

theorem ask_cacheSlots (q : Question) : ({ v with cacheSlots := slots }).ask q = v.ask q := by
  cases q with
  | resolve path =>
    simp only [ask, resolve, walk_cacheSlots]
    rfl
  | contents ino offset len =>
    simp only [ask, readContents, readData, readPieces_cacheSlots]
  | target ino => simp only [ask, readLink, readTarget, readTargetPieces_cacheSlots]
  | _ => rfl

end CacheSlots

/-- **Caches are not seen.** Two volumes mounted on one image, with room for any number of directory
blocks in their caches, answer every question alike, with a result or with a fault, whatever either
was asked before. -/
theorem answer_eq_of_mountedOn {image : ByteArray} (hv : v.MountedOn image)
    (hw : w.MountedOn image) (before before' : List Question) (q : Question) :
    v.answer (v.cacheOf before) q = w.answer (w.cacheOf before') q := by
  rw [answer_eq_fresh, answer_eq_fresh, hv.eq_but_cache hw, ask_cacheSlots]

/-- Two volumes of one image with directories, the first with the smallest cache: look-ups filled it,
found a block in it and made room in it before both are asked for a name in the root. -/
theorem answer_eq_threeDirs : ∃ (image : ByteArray) (v w : Volume), v.MountedOn image ∧
    w.MountedOn image ∧ v.cacheSlots = 2 ∧ w.cacheSlots = defaultCacheSlots ∧
    (v.cacheOf [.lookup 9 dotName, .lookup 10 dotName, .lookup 10 dotName,
      .lookup 8 [97]]).stats = { hits := 1, misses := 3, evictions := 1 } ∧
    v.answer (v.cacheOf [.lookup 9 dotName, .lookup 10 dotName, .lookup 10 dotName,
      .lookup 8 [97]]) (.lookup 8 [98]) = w.answer (w.cacheOf []) (.lookup 8 [98]) ∧
    ∃ kind, w.answer (w.cacheOf []) (.lookup 8 [98]) = .ok (some (10, kind)) := by
  obtain ⟨image, hmounts⟩ := BuildM.mounts_threeDirs
  obtain ⟨v, hmount, hslots, hdirs⟩ := hmounts { cacheSlots := 2 }
  obtain ⟨w, hmount', hslots', hdirs'⟩ := hmounts {}
  have hv : v.MountedOn image := ⟨_, .inl hmount⟩
  have hw : w.MountedOn image := ⟨_, .inl hmount'⟩
  refine ⟨image, v, w, hv, hw, hslots, hslots', hdirs.stats hslots,
    answer_eq_of_mountedOn hv hw _ _ _, ?_⟩
  obtain ⟨second, hread, -⟩ := hdirs'.second
  rw [answer_eq_fresh]
  exact hdirs'.top.fresh_lookup (by decide) hread

end Volume

end XfsVolume
