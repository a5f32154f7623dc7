import XfsVolume.Directory.Reader
import XfsVolume.Proofs.Steps

/-!
# Classes of errors

What a result can fail with is described by a class that holds every error with which it ends. A
sequence of steps fails within a class when each of its steps does; so there is one lemma for each
way in which steps are put together. Steps that read through a cache do so whatever the cache holds
(`CachedFailsIn`).
-/

namespace XfsVolume

variable {ε ε' α β : Type} {P : ε → Prop}

/-- The error with which the result ends, if it ends with one, is of the class `P`. -/
def FailsIn (P : ε → Prop) (r : Except ε α) : Prop := ∀ e, r = .error e → P e

theorem failsIn_ok (a : α) : FailsIn P (.ok a : Except ε α) := by
  intro e heq
  cases heq

theorem failsIn_error {e : ε} (h : P e) : FailsIn P (.error e : Except ε α) := by
  intro e' heq
  cases heq
  exact h

theorem failsIn_of_eq_ok {r : Except ε α} {a : α} (h : r = .ok a) : FailsIn P r := by
  rw [h]
  exact failsIn_ok a

theorem failsIn_bind {x : Except ε α} {f : α → Except ε β} (hx : FailsIn P x)
    (hf : ∀ a, x = .ok a → FailsIn P (f a)) : FailsIn P (x >>= f) := by
  cases x with
  | error e => exact failsIn_error (hx e rfl)
  | ok a => exact hf a rfl

theorem failsIn_map {x : Except ε α} (f : α → β) (hx : FailsIn P x) : FailsIn P (f <$> x) := by
  cases x with
  | error e => exact failsIn_error (hx e rfl)
  | ok a => exact failsIn_ok (f a)

/-- An error that is told in other words is of the class of these. -/
theorem failsIn_mapError {x : Except ε' α} {g : ε' → ε} (h : ∀ e, x = .error e → P (g e)) :
    FailsIn P (x.mapError g) := by
  cases x with
  | error e => exact failsIn_error (h e rfl)
  | ok a => exact failsIn_ok a

theorem failsIn_ite {p : Prop} [Decidable p] {x y : Except ε α} (hx : p → FailsIn P x)
    (hy : ¬ p → FailsIn P y) : FailsIn P (if p then x else y) := by
  split
  · rename_i hp
    exact hx hp
  · rename_i hp
    exact hy hp

/-- What comes behind a check fails in a class where the check does. -/
theorem failsIn_guard {p : Prop} [Decidable p] {e : ε} {f : Unit → Except ε β} (he : P e)
    (h : ¬ p → FailsIn P (f ())) :
    FailsIn P (if p then (throw e : Except ε Unit) >>= f else f ()) :=
  failsIn_ite (fun _ => failsIn_error he) h

/-! ## Through a cache -/

section

variable {P : Fault → Prop}

/-- On every cache, the fault with which `x` ends, if it ends with one, is of the class `P`. -/
def CachedFailsIn (P : Fault → Prop) (x : CacheM α) : Prop :=
  ∀ cache : BlockCache, FailsIn P (x.run.run cache).1

theorem cachedFailsIn_pure (a : α) : CachedFailsIn P (pure a : CacheM α) := fun _ => failsIn_ok a

theorem cachedFailsIn_throw {e : Fault} (h : P e) : CachedFailsIn P (throw e : CacheM α) :=
  fun _ => failsIn_error h

theorem cachedFailsIn_liftM {r : Except Fault α} (h : FailsIn P r) :
    CachedFailsIn P (liftM r : CacheM α) := fun _ => h

theorem cachedFailsIn_bind {x : CacheM α} {f : α → CacheM β} (hx : CachedFailsIn P x)
    (hf : ∀ a, CachedFailsIn P (f a)) : CachedFailsIn P (x >>= f) := by
  intro cache
  have hfirst := hx cache
  rw [run_bind]
  generalize x.run.run cache = after at hfirst ⊢
  obtain ⟨e | a, cache'⟩ := after
  · exact failsIn_error (hfirst e rfl)
  · exact hf a cache'

theorem cachedFailsIn_liftM_bind {r : Except Fault α} {f : α → CacheM β} (hr : FailsIn P r)
    (hf : ∀ a, r = .ok a → CachedFailsIn P (f a)) :
    CachedFailsIn P ((liftM r : CacheM α) >>= f) := by
  cases r with
  | error e => exact cachedFailsIn_throw (hr e rfl)
  | ok a => exact hf a rfl

theorem cachedFailsIn_ite {p : Prop} [Decidable p] {x y : CacheM α} (hx : p → CachedFailsIn P x)
    (hy : ¬ p → CachedFailsIn P y) : CachedFailsIn P (if p then x else y) := by
  split
  · rename_i hp
    exact hx hp
  · rename_i hp
    exact hy hp

/-- A check before the rest of a computation: nothing is asked of the fault of one that never
fails. -/
theorem cachedFailsIn_guard {p : Prop} [Decidable p] {e : Fault} {f : Unit → CacheM β}
    (he : p → P e) (h : ¬ p → CachedFailsIn P (f ())) :
    CachedFailsIn P (if p then (throw e : CacheM Unit) >>= f else f ()) :=
  cachedFailsIn_ite (fun hp => cachedFailsIn_throw (he hp)) h

end

end XfsVolume
