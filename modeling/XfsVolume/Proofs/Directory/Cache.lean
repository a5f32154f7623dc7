import XfsVolume.Directory.Reader
import XfsVolume.Proofs.Device
import XfsVolume.Proofs.Steps

/-!
# Reading through a cache

A cache that holds only what the device holds is not seen: whatever it keeps, reading through it
gives what the device gives, and leaves such a cache behind. A computation built from such reads is
steady (`Steady`): its answer is that on an empty cache (`fresh`), so that it can be reasoned about
without the cache.
-/

namespace XfsVolume

/-! ## Caches that agree with the device -/

namespace BlockCache

/-- Every run that is kept is what the device holds. -/
def Agrees (c : BlockCache) (dev : Device) : Prop :=
  ∀ run ∈ c.slots, dev.readBlocks run.start run.count = .ok run.data

variable {c : BlockCache} {dev : Device}

theorem agrees_withCapacity (slots : Nat) (dev : Device) : (withCapacity slots).Agrees dev := by
  intro run hrun
  cases hrun

theorem Agrees.hit (h : c.Agrees dev) : c.hit.Agrees dev := h

theorem Agrees.miss (h : c.Agrees dev) : c.miss.Agrees dev := h

theorem Agrees.makeRoom (h : c.Agrees dev) : c.makeRoom.Agrees dev := by
  rw [BlockCache.makeRoom]
  split
  · intro run hrun
    exact h run (List.mem_of_mem_take hrun)
  · exact h

theorem Agrees.insert (h : c.Agrees dev) {run : CachedRun}
    (hrun : dev.readBlocks run.start run.count = .ok run.data) : (c.insert run).Agrees dev := by
  intro r hr
  rcases List.mem_cons.mp hr with rfl | hr
  · exact hrun
  · exact h.makeRoom r hr

/-- A run that is handed out is what the device holds, and the cache goes on agreeing. -/
theorem Agrees.get (h : c.Agrees dev) (start count : Nat) :
    (c.get dev start count).1 = dev.readBlocks start count ∧
      (c.get dev start count).2.Agrees dev := by
  rw [BlockCache.get]
  cases hfind : c.find? start count with
  | some run =>
    have hkey := List.find?_some hfind
    rw [Bool.and_eq_true, beq_iff_eq, beq_iff_eq] at hkey
    have hheld := h run (List.mem_of_find?_eq_some hfind)
    rw [hkey.1, hkey.2] at hheld
    exact ⟨hheld.symm, h.hit⟩
  | none =>
    cases hread : dev.readBlocks start count with
    | ok data => exact ⟨rfl, h.miss.insert hread⟩
    | error fault => exact ⟨rfl, h.miss⟩

end BlockCache

/-! ## Computations that do not see the cache -/

variable {α β : Type}

/-- What `x` gives on an empty cache. -/
def fresh (x : CacheM α) : Except Fault α :=
  (x.run.run (BlockCache.withCapacity defaultCacheSlots)).1

/-- On every cache that agrees with the device `x` gives what it gives on an empty one, and leaves
a cache that agrees. -/
def Steady (dev : Device) (x : CacheM α) : Prop :=
  ∀ c : BlockCache, c.Agrees dev → (x.run.run c).1 = fresh x ∧ (x.run.run c).2.Agrees dev

theorem steady_of_gives {dev : Device} {x : CacheM α} {r : Except Fault α}
    (h : ∀ c : BlockCache, c.Agrees dev → (x.run.run c).1 = r ∧ (x.run.run c).2.Agrees dev) :
    Steady dev x ∧ fresh x = r := by
  have hfresh : fresh x = r := (h _ (BlockCache.agrees_withCapacity _ dev)).1
  refine ⟨?_, hfresh⟩
  intro c hc
  rw [hfresh]
  exact h c hc

variable {dev : Device}

@[simp] theorem fresh_pure (a : α) : fresh (pure a : CacheM α) = .ok a := rfl

@[simp] theorem fresh_throw (e : Fault) : fresh (throw e : CacheM α) = .error e := rfl

@[simp] theorem fresh_liftM (r : Except Fault α) : fresh (liftM r : CacheM α) = r := rfl

theorem steady_pure (a : α) : Steady dev (pure a : CacheM α) := fun _ hc => ⟨rfl, hc⟩

theorem steady_throw (e : Fault) : Steady dev (throw e : CacheM α) := fun _ hc => ⟨rfl, hc⟩

theorem steady_liftM (r : Except Fault α) : Steady dev (liftM r : CacheM α) :=
  fun _ hc => ⟨rfl, hc⟩

theorem steady_ite {p : Prop} [Decidable p] {x y : CacheM α} (hx : Steady dev x)
    (hy : Steady dev y) : Steady dev (if p then x else y) := by
  split
  · exact hx
  · exact hy

theorem Steady.bind {x : CacheM α} {f : α → CacheM β} (hx : Steady dev x)
    (hf : ∀ a, Steady dev (f a)) :
    Steady dev (x >>= f) ∧ fresh (x >>= f) = fresh x >>= fun a => fresh (f a) := by
  apply steady_of_gives
  intro c hc
  obtain ⟨hvalue, hafter⟩ := hx c hc
  rw [run_bind, ← hvalue]
  generalize x.run.run c = after at hafter
  obtain ⟨e | a, c'⟩ := after
  · exact ⟨rfl, hafter⟩
  · exact hf a c' hafter

theorem steady_bind {x : CacheM α} {f : α → CacheM β} (hx : Steady dev x)
    (hf : ∀ a, Steady dev (f a)) : Steady dev (x >>= f) := (hx.bind hf).1

theorem fresh_bind {x : CacheM α} {f : α → CacheM β} (hx : Steady dev x)
    (hf : ∀ a, Steady dev (f a)) : fresh (x >>= f) = fresh x >>= fun a => fresh (f a) :=
  (hx.bind hf).2

/-- A step that fails ends the computation. -/
theorem fresh_bind_error {x : CacheM α} {f : α → CacheM β} {e : Fault} (h : fresh x = .error e) :
    fresh (x >>= f) = .error e := by
  rw [fresh] at h
  rw [fresh, run_bind]
  generalize x.run.run _ = after at h ⊢
  obtain ⟨e' | a, c⟩ := after
  · exact congrArg _ (Except.error.inj h)
  · cases h

/-- A step that succeeds hands its answer on. -/
theorem fresh_bind_ok {x : CacheM α} {f : α → CacheM β} {a : α} (hx : Steady dev x)
    (hf : ∀ a, Steady dev (f a)) (h : fresh x = .ok a) : fresh (x >>= f) = fresh (f a) := by
  rw [fresh_bind hx hf, h, ok_bind]

/-- A check before the rest of a computation. -/
theorem steady_guard {p : Prop} [Decidable p] (e : Fault) {f : Unit → CacheM β}
    (hf : ∀ u, Steady dev (f u)) :
    Steady dev (if p then (throw e : CacheM Unit) >>= f else f ()) :=
  steady_ite (steady_throw e) (hf ())

theorem fresh_ite {p : Prop} [Decidable p] (x y : CacheM α) :
    fresh (if p then x else y) = if p then fresh x else fresh y := by
  split
  · rfl
  · rfl

/-- A step that does not read the device. -/
theorem fresh_liftM_bind (r : Except Fault α) (f : α → CacheM β) :
    fresh (liftM r >>= f) = r >>= fun a => fresh (f a) := by
  cases r with
  | ok a => rfl
  | error e => rfl

theorem fresh_throw_bind (e : Fault) (f : α → CacheM β) :
    fresh ((throw e : CacheM α) >>= f) = .error e := rfl

theorem fresh_guard {p : Prop} [Decidable p] (e : Fault) (f : Unit → CacheM β) :
    fresh (if p then (throw e : CacheM Unit) >>= f else f ()) =
      if p then .error e else fresh (f ()) := fresh_ite _ _

/-- A computation succeeds when each of its steps does. -/
theorem fresh_bind_eq_ok {x : CacheM α} {f : α → CacheM β} (hx : Steady dev x)
    (hf : ∀ a, Steady dev (f a)) {b : β} :
    fresh (x >>= f) = .ok b ↔ ∃ a, fresh x = .ok a ∧ fresh (f a) = .ok b := by
  rw [fresh_bind hx hf, bind_eq_ok]

end XfsVolume
