import XfsVolume.Proofs.Bytes
import XfsVolume.Proofs.Volume.ReadFaults

/-!
# Forks of loaded inodes

An inode is handed out only if its fork can hold what it claims: the extents of a list, or the
contents that lie in the fork itself (`Inode.HoldsClaims`). Every reader of a fork checks this again,
since an inode is a value that may come from anywhere. For one that was loaded these later checks
hold, on whatever volume it is used and whatever has become of the device: reading ends with many
faults, but never with one that says that the fork is too short (`Fault.isShortFork`).
-/

namespace XfsVolume

/-- The fault says that a fork is too short for a list of extents, for a file's contents or target,
or for a directory. -/
def Fault.isShortFork : Fault → Bool
  | .corruptTree _ flaw => flaw.ofList
  | .corruptInode _ .inlineDataShort | .corruptInode _ .inlineTargetShort => true
  | .corruptDirectory _ (.inline _ (.tooLong _)) => true
  | _ => false

/-- The result is not the fault of a fork that is too short. -/
abbrev InFork {α : Type} (r : Except Fault α) : Prop := FailsIn (·.isShortFork = false) r

theorem ite_some_eq_none {α : Type} {c : Prop} [Decidable c] {a : α} {x : Option α} :
    (if c then some a else x) = none ↔ ¬ c ∧ x = none := by
  by_cases h : c
  · simp [h]
  · simp [h]

namespace Inode

/-- The fork has room for what the inode claims to hold in it. -/
structure HoldsClaims (inode : Inode) : Prop where
  extents : inode.format = .extents → inode.extents.toNat * extentLength ≤ inode.fork.size
  contents : inode.format = .inline → inode.size.toNat ≤ inode.fork.size
  word : inode.fork.size < wordLimit

variable {inode dir : Inode}

theorem fork_size_le {b : ByteArray} {ino : UInt64} (h : decode b ino = .ok inode) :
    inode.fork.size ≤ b.size := by
  simp only [decode, bind_eq_ok, pure_eq_ok] at h
  obtain ⟨form, -, flags2, -, counts, -, nlink, -, place, -, mode, -, uid, -, gid, -, atime, -,
    mtime, -, ctime, -, crtime, -, size, -, blocks, -, extentSize, -, attrFormat, -, flags, -,
    generation, -, fork, hfork, heq⟩ := h
  cases heq
  obtain ⟨hin, rfl⟩ := window_of_readBytes hfork
  dsimp only
  rw [size_window]
  omega

theorem holdsClaims_of_checkFork (hcheck : inode.checkFork = .ok ())
    (hword : inode.fork.size < wordLimit) : inode.HoldsClaims := by
  have hflaw : inode.forkFlaw? = none := by
    rw [checkFork] at hcheck
    cases hfound : inode.forkFlaw? with
    | none => rfl
    | some flaw =>
      rw [hfound] at hcheck
      cases hcheck
  refine ⟨fun hformat => ?_, fun hformat => ?_, hword⟩
  · simp only [forkFlaw?, hformat, ite_some_eq_none] at hflaw
    exact Nat.not_lt.mp hflaw.2.2.2.1
  · simp only [forkFlaw?, hformat, ite_some_eq_none] at hflaw
    exact Nat.not_lt.mp hflaw.2.2.2.1

end Inode

namespace Extent

variable {b : ByteArray}

theorem exists_decode {off : Nat} (hb : b.size < wordLimit) (h : off + 16 ≤ b.size) :
    ∃ e, decode b off = .ok e := by
  rw [decode, readU64_eq hb (by omega), ok_bind, readU64_eq hb (by omega), ok_bind]
  exact ⟨_, rfl⟩

theorem exists_decodeList (hb : b.size < wordLimit) :
    ∀ {n off : Nat}, off + n * 16 ≤ b.size → ∃ es, decodeList b off n = .ok es
  | 0, _, _ => ⟨[], rfl⟩
  | n + 1, off, h => by
      have hfirst : off + 16 ≤ b.size := by omega
      have hrest : off + 16 + n * 16 ≤ b.size := by omega
      obtain ⟨e, he⟩ := exists_decode hb hfirst
      obtain ⟨es, hes⟩ := exists_decodeList hb hrest
      rw [decodeList, he, ok_bind, hes]
      exact ⟨_, rfl⟩

end Extent

/-! ## Extents -/

namespace Inode

variable {inode : Inode}

theorem HoldsClaims.checkInlineExtents_eq (h : inode.HoldsClaims)
    (hformat : inode.format = .extents) : inode.checkInlineExtents = .ok () := by
  rw [checkInlineExtents, if_neg (Nat.not_lt.mpr (h.extents hformat))]

theorem HoldsClaims.exists_inlineExtents (h : inode.HoldsClaims)
    (hformat : inode.format = .extents) : ∃ es, inode.inlineExtents = .ok es := by
  have hroom := h.extents hformat
  rw [extentLength] at hroom
  have hlist : 0 + inode.extents.toNat * 16 ≤ inode.fork.size := by rwa [Nat.zero_add]
  obtain ⟨es, hes⟩ := Extent.exists_decodeList h.word hlist
  rw [inlineExtents, h.checkInlineExtents_eq hformat, ok_bind, Extent.ofFork,
    if_neg (Nat.not_lt.mpr hroom), hes]
  exact ⟨es, rfl⟩

theorem HoldsClaims.inFork_inlineExtents (h : inode.HoldsClaims) :
    inode.format = .extents → InFork inode.inlineExtents := by
  intro hformat
  obtain ⟨es, hes⟩ := h.exists_inlineExtents hformat
  exact failsIn_of_eq_ok hes

end Inode

namespace Medium

variable {inode : Inode}

theorem mapFaults_inFork (m : Medium) : m.MapFaults (·.isShortFork = false) where
  missing _ := rfl
  flawed _ _ h := h
  unread _ _ := failsIn_mapError fun _ _ => rfl

theorem inFork_next (m : Medium) (h : inode.HoldsClaims) (hformat : inode.format = .extents)
    (c : ExtentCursor) : InFork (c.next m inode).1 := by
  refine m.mapFaults_inFork.next fun index _ => ?_
  rw [ExtentCursor.nextInline]
  refine failsIn_ite (fun _ => failsIn_ok _) fun hin => ?_
  have hroom := h.extents hformat
  have hrecord : index * extentLength + 16 ≤ inode.fork.size := by
    rw [extentLength] at hroom ⊢
    omega
  obtain ⟨e, he⟩ := Extent.exists_decode h.word hrecord
  rw [h.checkInlineExtents_eq hformat, ok_bind, he, mapError_ok, ok_bind]
  exact m.mapFaults_inFork.emit _ _ _ _

end Medium

/-! ## Contents and targets -/

namespace Volume

variable {inode : Inode}

theorem inFork_readRun (v : Volume) (h : inode.HoldsClaims) (offset remaining : Nat) :
    InFork (v.readRun inode offset remaining) := by
  have hfind := v.mapFaults_inFork.findExtent h.inFork_inlineExtents
    (offset / v.geometry.blockSize.toNat)
  rw [readRun]
  cases hfound : v.findExtent inode (offset / v.geometry.blockSize.toNat) with
  | ok e =>
    refine failsIn_ite (fun _ => failsIn_ok _) fun _ => ?_
    refine failsIn_bind (v.mapFaults_inFork.mappingIn e _) fun mapping _ => ?_
    exact failsIn_bind (failsIn_mapError fun _ _ => rfl) fun _ _ => failsIn_ok _
  | error e =>
    cases e with
    | extentNotFound _ => exact failsIn_ok _
    | _ => exact failsIn_error (hfind _ hfound)

theorem inFork_readPieces (v : Volume) (h : inode.HoldsClaims) :
    ∀ remaining offset : Nat, InFork (v.readPieces inode offset remaining) := by
  intro remaining
  induction remaining using Nat.strongRecOn with
  | ind remaining ih =>
    intro offset
    rw [readPieces]
    refine failsIn_ite (fun _ => failsIn_ok _) fun _ => ?_
    refine failsIn_bind (v.inFork_readRun h offset remaining) fun piece _ => ?_
    by_cases hmore : 0 < piece.size ∧ 0 < remaining
    · rw [dif_pos hmore]
      exact failsIn_bind (ih _ (by omega) _) fun _ _ => failsIn_ok _
    · rw [dif_neg hmore]
      exact failsIn_ok _

theorem inFork_readData (v : Volume) (h : inode.HoldsClaims) (offset len : Nat) :
    InFork (v.readData inode offset len) := by
  rw [readData]
  refine failsIn_guard rfl fun _ => ?_
  refine failsIn_ite (fun _ => failsIn_ok _) fun hoffset => ?_
  cases hformat : inode.format with
  | inline =>
    have hroom := h.contents hformat
    exact failsIn_ite (fun hpast => absurd hpast (by omega)) fun _ => failsIn_ok _
  | extents | btree =>
    exact failsIn_bind (v.inFork_readPieces h _ _) fun _ _ => failsIn_ok _
  | dev | uuid => exact failsIn_error rfl

theorem inFork_readTarget (v : Volume) (h : inode.HoldsClaims) : InFork (v.readTarget inode) := by
  refine failsIn_readTarget v.mapFaults_inFork h.inFork_inlineExtents
    (fun _ _ _ => failsIn_mapError fun _ _ => rfl) rfl (fun flaw hdata htarget => ?_)
    fun hformat hpast => absurd (h.contents hformat) (Nat.not_le.mpr hpast)
  cases flaw with
  | inlineDataShort => exact absurd rfl hdata
  | inlineTargetShort => exact absurd rfl htarget
  | _ => rfl

end Volume

/-! ## Inline directories -/

namespace Medium

variable {dir : Inode}

theorem inFork_inlineListing (m : Medium) (h : dir.HoldsClaims) (hformat : dir.format = .inline) :
    InFork (m.inlineListing dir) :=
  m.failsIn_inlineListing (fun hpast => absurd (h.contents hformat) (Nat.not_le.mpr hpast))
    (fun _ => rfl) fun _ _ => rfl

theorem dirFormat_of_inline (m : Medium) (hformat : dir.format = .inline) :
    m.dirFormat dir = if dir.isDirectory then .ok .inline else .error .notDirectory := by
  rw [dirFormat, hformat]
  cases dir.isDirectory with
  | true => rfl
  | false => rfl

theorem inFork_dirFormat_bind {α : Type} (m : Medium) (hformat : dir.format = .inline)
    {f : DirFormat → CacheM α} (hf : CachedFailsIn (·.isShortFork = false) (f .inline)) :
    CachedFailsIn (·.isShortFork = false)
      ((liftM (m.dirFormat dir) : CacheM DirFormat) >>= f) := by
  rw [m.dirFormat_of_inline hformat]
  cases dir.isDirectory with
  | true => exact hf
  | false => exact cachedFailsIn_throw rfl

theorem inFork_lookupName (m : Medium) (h : dir.HoldsClaims) (hformat : dir.format = .inline)
    (name : Name) : CachedFailsIn (·.isShortFork = false) (m.lookupName dir name) := by
  rw [lookupName]
  refine cachedFailsIn_guard (fun _ => rfl) fun _ => ?_
  refine cachedFailsIn_ite (fun _ => cachedFailsIn_pure _) fun _ => ?_
  refine m.inFork_dirFormat_bind hformat (cachedFailsIn_liftM ?_)
  exact failsIn_bind (m.inFork_inlineListing h hformat) fun _ _ => failsIn_ok _

theorem inFork_nextEntryAs (m : Medium) (h : dir.HoldsClaims) (hformat : dir.format = .inline)
    (cursor : DirCursor) :
    CachedFailsIn (·.isShortFork = false) (m.nextEntryAs .inline dir cursor) :=
  cachedFailsIn_liftM (failsIn_bind (m.inFork_inlineListing h hformat) fun _ _ => failsIn_ok _)

theorem inFork_listFrom {step : DirCursor → CacheM (Option (DirEntry × DirCursor))}
    (hstep : ∀ cursor, CachedFailsIn (·.isShortFork = false) (step cursor)) :
    ∀ fuel cursor acc, CachedFailsIn (·.isShortFork = false) (listFrom step fuel cursor acc)
  | 0, _, _ => cachedFailsIn_throw rfl
  | fuel + 1, cursor, acc => by
      rw [listFrom]
      refine cachedFailsIn_bind (hstep cursor) fun found => ?_
      rcases found with - | ⟨entry, next⟩
      · exact cachedFailsIn_pure _
      · exact inFork_listFrom hstep fuel next _

/-! ## Loaded inodes -/

theorem holdsClaims_of_readInode {m : Medium} {ino : Nat} {inode : Inode}
    (h : m.readInode ino = .ok inode) : inode.HoldsClaims := by
  simp only [readInode, bind_eq_ok, mapError_eq_ok, pure_eq_ok] at h
  obtain ⟨slot, -, bytes, hbytes, decoded, hdecode, _, hcheck, heq⟩ := h
  cases heq
  simp only [readSlot, throw_bind, ite_error_eq_ok, bind_eq_ok, pure_eq_ok] at hbytes
  obtain ⟨-, block, -, -, heq⟩ := hbytes
  cases heq
  have hfork := Inode.fork_size_le hdecode
  have hlong := m.geometry.inodeSize.toNat_lt
  refine Inode.holdsClaims_of_checkFork hcheck ?_
  rw [size_window] at hfork
  rw [wordLimit, UInt64.size]
  omega

/-- **A fork that was checked stays long enough.** No reader ever finds the fork of a loaded inode
too short, whatever it reads of it, on any volume, and with any cursor and any cache: neither the
block map and its cursors for a list of extents, nor a read of a file's contents or of a symlink's
target, nor a directory whose entries lie in its fork. -/
theorem loadedForks_longEnough {m : Medium} {ino : Nat} {inode : Inode}
    (h : m.readInode ino = .ok inode) :
    (inode.format = .extents → ∀ n : Medium,
      (∀ logical, InFork (n.findExtent inode logical)) ∧
      (∀ cursor : ExtentCursor, InFork (cursor.next n inode).1) ∧
      InFork (n.lastExtent? inode) ∧ InFork (n.allExtents inode)) ∧
    (∀ (v : Volume) (offset len : Nat), InFork (v.readData inode offset len)) ∧
    (∀ (v : Volume) (offset : Nat) (buffer : ByteArray),
      InFork (v.readInto inode offset buffer)) ∧
    (∀ v : Volume, InFork (v.readTarget inode)) ∧
    (inode.format = .inline → ∀ n : Medium,
      (∀ name, CachedFailsIn (·.isShortFork = false) (n.lookupName inode name)) ∧
      (∀ cursor, CachedFailsIn (·.isShortFork = false) (n.nextEntry inode cursor)) ∧
      CachedFailsIn (·.isShortFork = false) (n.readAll inode)) := by
  have hholds := holdsClaims_of_readInode h
  refine ⟨fun hformat n => ⟨fun logical => ?_, fun cursor => ?_, ?_, ?_⟩, fun v offset len => ?_,
    fun v offset buffer => ?_, fun v => ?_,
    fun hformat n => ⟨fun name => ?_, fun cursor => ?_, ?_⟩⟩
  · exact n.mapFaults_inFork.findExtent hholds.inFork_inlineExtents logical
  · exact n.inFork_next hholds hformat cursor
  · exact n.mapFaults_inFork.lastExtent? hholds.inFork_inlineExtents
  · exact n.mapFaults_inFork.allExtents hholds.inFork_inlineExtents
  · exact v.inFork_readData hholds offset len
  · exact failsIn_bind (v.inFork_readData hholds offset _) fun _ _ => failsIn_ok _
  · exact v.inFork_readTarget hholds
  · exact n.inFork_lookupName hholds hformat name
  · exact n.inFork_dirFormat_bind hformat (n.inFork_nextEntryAs hholds hformat cursor)
  · refine n.inFork_dirFormat_bind hformat ?_
    exact cachedFailsIn_bind (inFork_listFrom (n.inFork_nextEntryAs hholds hformat) _ _ _)
      fun _ => cachedFailsIn_pure _

/-- A directory of version 2 that claims its fork to the last byte, with one name. -/
def fullDirectory : List UInt8 :=
  [0x49, 0x4E, 0x41, 0xED, 2, 1] ++ List.replicate 57 0 ++ [28] ++ List.replicate 36 0 ++
    [1, 0, 0, 0, 0, 0, 1, 0, 0, 0x61, 0, 0, 0, 1] ++ List.replicate 14 0

def fullList : List UInt8 :=
  [0x49, 0x4E, 0x81, 0xA4, 2, 2] ++ List.replicate 73 0 ++ [1] ++ List.replicate 20 0 ++
    Extent.encode ⟨0, 0, 1, false⟩ ++ List.replicate 12 0

def fullForks : Medium where
  device := ⟨⟨⟨fullDirectory ++ fullList⟩⟩, 128⟩
  geometry := {
    blockSize := 128, blockLog := 7, dataBlocks := 2, agBlocks := 2, agBlockLog := 1, agCount := 1
    inodeSize := 128, inodeLog := 7, inodesPerBlockLog := 0, dirBlockLog := 0, dirBlockSize := 128
    rootIno := 0, isV5 := false, hasFtype := false }

theorem readInode_fullDirectory :
    (fun i => (i.format, i.size.toNat, i.fork.size)) <$> fullForks.readInode 0 =
      .ok (.inline, 28, 28) := by
  decide +kernel

theorem readInode_fullList :
    (fun i => (i.format, i.extents.toNat)) <$> fullForks.readInode 1 = .ok (.extents, 1) := by
  decide +kernel

theorem loadedForks_fullForks :
    (∃ dir, fullForks.readInode 0 = .ok dir ∧ dir.format = .inline ∧
      dir.size.toNat = dir.fork.size ∧
      CachedFailsIn (·.isShortFork = false) (fullForks.readAll dir)) ∧
    ∃ file, fullForks.readInode 1 = .ok file ∧ file.format = .extents ∧ file.extents.toNat = 1 ∧
      ∀ cursor : ExtentCursor, InFork (cursor.next fullForks file).1 := by
  obtain ⟨dir, hreadDir, hdirFields⟩ := map_eq_ok.mp readInode_fullDirectory
  obtain ⟨file, hreadFile, hfileFields⟩ := map_eq_ok.mp readInode_fullList
  obtain ⟨hinline, hfields⟩ := Prod.mk.inj hdirFields
  obtain ⟨hsize, hfork⟩ := Prod.mk.inj hfields
  obtain ⟨hlist, hcount⟩ := Prod.mk.inj hfileFields
  obtain ⟨-, -, -, -, hdirectory⟩ := loadedForks_longEnough hreadDir
  obtain ⟨hextents, -⟩ := loadedForks_longEnough hreadFile
  exact ⟨⟨dir, hreadDir, hinline, hsize.trans hfork.symm, (hdirectory hinline fullForks).2.2⟩,
    file, hreadFile, hlist, hcount, (hextents hlist fullForks).2.1⟩

end Medium

end XfsVolume
