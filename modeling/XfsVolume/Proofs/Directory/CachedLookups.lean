import XfsVolume.Proofs.Directory.CacheHistory
import XfsVolume.Proofs.Directory.Reading
import XfsVolume.Proofs.Extent.Linear
import XfsVolume.Volume.Names

/-!
# What a look-up asks of the cache

Where a directory block is as large as a block of the volume, it lies in one extent, and the cache is
asked for it at once. A look-up in a block directory asks for its block and for nothing else
(`Requests`), so that a history of such look-ups is a history of the cache (`exists_starts`).
-/

namespace XfsVolume

variable {α β : Type} {dev : Device} {start count : Nat}

/-- `x` leaves every cache as it finds it. -/
def Idle (x : CacheM α) : Prop := ∀ c : BlockCache, (x.run.run c).2 = c

/-- `x` leaves every cache as one request for a run of blocks does. -/
def Requests (dev : Device) (start count : Nat) (x : CacheM α) : Prop :=
  ∀ c : BlockCache, (x.run.run c).2 = (c.get dev start count).2

theorem idle_pure (a : α) : Idle (pure a : CacheM α) := fun _ => rfl

theorem idle_liftM (r : Except Fault α) : Idle (liftM r : CacheM α) := fun _ => rfl

theorem idle_liftM_bind (r : Except Fault α) {f : α → CacheM β} (hf : ∀ a, Idle (f a)) :
    Idle (liftM r >>= f) := by
  cases r with
  | ok a => exact hf a
  | error e => exact fun _ => rfl

theorem Requests.bind {x : CacheM α} {f : α → CacheM β} (hx : Requests dev start count x)
    (hf : ∀ a, Idle (f a)) : Requests dev start count (x >>= f) := by
  intro c
  rw [run_bind, ← hx c]
  rcases x.run.run c with ⟨e | a, left⟩
  · rfl
  · exact hf a left

theorem requests_liftM_bind {r : Except Fault α} {a : α} {f : α → CacheM β} (hr : r = .ok a)
    (hf : Requests dev start count (f a)) : Requests dev start count (liftM r >>= f) := by
  subst hr
  exact hf

namespace Medium

variable {m : Medium} {dir dir' : Inode} {fb : Nat} {name : Name} {block : ByteArray}
  {target : Nat × FileKind}

theorem requests_readDirBlock (hone : m.geometry.blocksPerDirBlock = 1)
    (h : m.dirBlock dir fb = .ok block) : ∃ start, m.readBlocks start 1 = .ok block ∧
      Requests m.device start 1 (m.readDirBlock dir fb) := by
  rw [dirBlock_eq, hone] at h
  obtain ⟨extent, hfind, h⟩ := bind_eq_ok.mp h
  have hcovers := covers_of_findExtent (mapError_eq_ok.mp hfind)
  rw [Extent.covers_iff_stop] at hcovers
  have hstop : extent.stop ≥ fb + 1 := hcovers.2
  rw [if_pos hstop] at h
  obtain ⟨mapping, hmapping, h⟩ := bind_eq_ok.mp h
  by_cases hpast : mapping.physical + 1 > m.device.blockCount
  · rw [if_pos hpast] at h
    cases h
  rw [if_neg hpast] at h
  refine ⟨mapping.physical, h, ?_⟩
  rw [readDirBlock]
  dsimp only
  rw [hone]
  refine requests_liftM_bind hfind ?_
  rw [if_pos hstop]
  refine requests_liftM_bind hmapping ?_
  rw [if_neg hpast]
  exact fun _ => rfl

theorem requests_blockWalk (h : Requests m.device start count (m.readDirBlock dir 0)) :
    Requests m.device start count (m.blockWalk dir) := by
  rw [blockWalk]
  refine h.bind fun block => idle_liftM_bind _ fun header => ?_
  split
  · exact fun _ => rfl
  · exact idle_liftM_bind _ fun tail => idle_pure _

theorem requests_lookupBlock (h : Requests m.device start count (m.readDirBlock dir 0))
    (name : Name) : Requests m.device start count (m.lookupBlock dir name) := by
  rw [lookupBlock]
  refine (requests_blockWalk h).bind fun walk => ?_
  cases walk.entries.find? (·.name == name) with
  | some e => exact idle_pure _
  | none => exact idle_liftM _

theorem lookupName_of_block (hformat : m.dirFormat dir = .ok .block) (hne : name ≠ [])
    (hlen : name.length ≤ maxNameLength) : m.lookupName dir name = m.lookupBlock dir name := by
  rw [lookupName, if_neg (Nat.not_lt.mpr hlen)]
  dsimp only
  rw [if_neg (by simpa using hne), hformat]
  rfl

theorem fresh_lookupBlock_eq_some : fresh (m.lookupBlock dir name) = .ok (some target) ↔
    ∃ walk e, fresh (m.blockWalk dir) = .ok walk ∧
      walk.entries.find? (·.name == name) = some e ∧ e.toDirEntry.target = target := by
  rw [lookupBlock]
  refine (fresh_bind_eq_ok (m.steady_blockWalk dir) fun walk => ?_).trans
    (exists_congr fun walk => ?_)
  · cases walk.entries.find? (·.name == name) with
    | some e => exact steady_pure _
    | none => exact steady_liftM _
  cases hfind : walk.entries.find? (·.name == name) with
  | some e => simp
  | none =>
    rw [fresh_liftM, walkEnd]
    cases walk.stoppedBy <;> simp

theorem lookupBlock_of_same (hsame : m.dirBlock dir' 0 = m.dirBlock dir 0)
    (h : fresh (m.lookupBlock dir name) = .ok (some target)) :
    fresh (m.lookupBlock dir' name) = .ok (some target) := by
  obtain ⟨walk, e, hwalk, hfound⟩ := fresh_lookupBlock_eq_some.mp h
  rw [fresh_blockWalk_eq_ok, ← hsame, ← fresh_blockWalk_eq_ok] at hwalk
  exact fresh_lookupBlock_eq_some.mpr ⟨walk, e, hwalk, hfound⟩

end Medium

namespace Volume

variable {v : Volume} {ino : Nat} {dir : Inode}

/-- A block directory that is read and finds itself under its own name. -/
structure NamesItself (v : Volume) (ino : Nat) (dir : Inode) : Prop where
  read : v.readInode ino = .ok dir
  format : v.dirFormat dir = .ok .block
  found : ∃ kind, fresh (v.lookupName dir dotName) = .ok (some (ino, kind))

theorem NamesItself.requests (h : v.NamesItself ino dir)
    (hone : v.geometry.blocksPerDirBlock = 1) : ∃ start data,
      v.readBlocks start 1 = .ok data ∧ v.dirBlock dir 0 = .ok data ∧
        ∀ name : Name, name ≠ [] → name.length ≤ maxNameLength →
          Requests v.device start 1 (v.lookup ino name) := by
  obtain ⟨hread, hformat, kind, hfound⟩ := h
  rw [Medium.lookupName_of_block hformat (by decide) (by decide)] at hfound
  obtain ⟨walk, e, hwalk, -⟩ := Medium.fresh_lookupBlock_eq_some.mp hfound
  obtain ⟨data, _, _, hblock, -⟩ := Medium.fresh_blockWalk_eq_ok.mp hwalk
  obtain ⟨start, hdata, hrequests⟩ := Medium.requests_readDirBlock hone hblock
  refine ⟨start, data, hdata, hblock, fun name hne hlen => ?_⟩
  rw [lookup]
  refine requests_liftM_bind hread ?_
  rw [Medium.lookupName_of_block hformat hne hlen]
  refine (Medium.requests_lookupBlock hrequests name).bind fun found => ?_
  rcases found with - | ⟨next, recorded⟩
  · exact idle_pure _
  · exact idle_liftM_bind _ fun kind => idle_pure _

/-- Directories of one block that name themselves lie in blocks of their own, and every look-up in
one of them asks for its block. -/
theorem exists_starts (hone : v.geometry.blocksPerDirBlock = 1) {inos : List Nat}
    (h : ∀ ino ∈ inos, ∃ dir, v.NamesItself ino dir) : ∃ start : Nat → Nat,
      (∀ ino ∈ inos, (∃ data, v.device.readBlocks (start ino) 1 = .ok data) ∧
        ∀ name : Name, name ≠ [] → name.length ≤ maxNameLength →
          Requests v.device (start ino) 1 (v.lookup ino name)) ∧
      ∀ ino ∈ inos, ∀ other ∈ inos, start ino = start other → ino = other := by
  choose dir hdir using h
  choose! start data hdata hblock hrequests using
    fun ino hin => (hdir ino hin).requests hone
  refine ⟨start, fun ino hin => ⟨⟨data ino, ?_⟩, hrequests ino hin⟩, ?_⟩
  · exact mapError_eq_ok.mp (hdata ino hin)
  · intro ino hin other hother hstart
    obtain ⟨-, hformat, kind, hfound⟩ := hdir ino hin
    obtain ⟨-, hformat', kind', hfound'⟩ := hdir other hother
    have hread := hdata ino hin
    rw [hstart, hdata other hother] at hread
    have hsame : v.dirBlock (dir other hother) 0 = v.dirBlock (dir ino hin) 0 := by
      rw [hblock ino hin, hblock other hother]
      exact hread
    rw [Medium.lookupName_of_block hformat (by decide) (by decide)] at hfound
    rw [Medium.lookupName_of_block hformat' (by decide) (by decide),
      Medium.lookupBlock_of_same hsame hfound] at hfound'
    cases hfound'
    rfl

end Volume

end XfsVolume
