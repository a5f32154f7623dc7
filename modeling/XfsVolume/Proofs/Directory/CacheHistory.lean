import Mathlib.Data.List.Induction
import Mathlib.Data.List.Nodup
import XfsVolume.Directory.BlockCache

/-!
# Histories of a cache

A cache is asked for runs of blocks and cleared, in any order, and nothing promises that the device
is the same from call to call or that it can be read. What became of each call since the cache was
cleared last is its log. The counters and the runs that are kept are what the log says, however long
it is (`Books`), and so it is known what a cache with any history does when it is asked for a run
(`Serves`): `get_booked`.
-/

namespace XfsVolume

/-- A call of a cache, and the device that it is made with. -/
inductive CacheCall
  | get (dev : Device) (start count : Nat)
  | clear

def CacheCall.isGet : CacheCall → Bool
  | get _ _ _ => true
  | clear => false

/-- What became of a request for a run of blocks. -/
inductive CacheEvent
  /-- The run was kept. -/
  | hit (start count : Nat)
  /-- The run was read from the device. -/
  | read (dev : Device) (run : CachedRun)
  /-- The device could not be read. -/
  | failed (dev : Device) (start count : Nat)

namespace CacheEvent

def run? : CacheEvent → Option CachedRun
  | read _ run => some run
  | _ => none

def isFailed : CacheEvent → Bool
  | failed _ _ _ => true
  | _ => false

end CacheEvent

namespace BlockCache

/-- What becomes of a request. -/
def event (c : BlockCache) (dev : Device) (start count : Nat) : CacheEvent :=
  match c.find? start count with
  | some _ => .hit start count
  | none =>
    match dev.readBlocks start count with
    | .ok data => .read dev { start, count, data }
    | .error _ => .failed dev start count

def after (c : BlockCache) : List CacheCall → BlockCache
  | [] => c
  | .get dev start count :: calls => (c.get dev start count).2.after calls
  | .clear :: calls => c.clear.after calls

/-- What became of the requests since the last call that cleared the cache, `seen` of those before
the calls listed. -/
def log (c : BlockCache) (seen : List CacheEvent) : List CacheCall → List CacheEvent
  | [] => seen
  | .get dev start count :: calls =>
    (c.get dev start count).2.log (seen ++ [c.event dev start count]) calls
  | .clear :: calls => c.clear.log [] calls

def inserts (log : List CacheEvent) : List CachedRun := log.filterMap CacheEvent.run?

def failures (log : List CacheEvent) : Nat := log.countP CacheEvent.isFailed

/-- A cache for `slots` runs is as its log says. -/
structure Books (slots : Nat) (c : BlockCache) (log : List CacheEvent) : Prop where
  /-- The capacity is the least even number that is two at least and not less than asked for. -/
  even : c.capacity % 2 = 0
  capacity : max slots 2 ≤ c.capacity ∧ c.capacity ≤ max slots 2 + 1
  room : c.size ≤ c.capacity
  /-- No run is kept twice. -/
  distinct : (c.slots.map fun run => (run.start, run.count)).Nodup
  gets : c.stats.hits + c.stats.misses = log.length
  misses : c.stats.misses = c.size + c.stats.evictions + failures log
  /-- What is kept are the runs that were read last, from the oldest to the newest. -/
  newest : c.slots.reverse <:+ inserts log
  /-- The bytes of a run are those that the device gave when it was read. -/
  given : ∀ {dev run}, .read dev run ∈ log → dev.readBlocks run.start run.count = .ok run.data

/-- What a cache does when it is asked for a run: one that is kept is handed out as it was read, a
read that fails counts as a miss and leaves all else alone, and one that succeeds puts its run in
front, in a full cache in front of the newer half. -/
structure Serves (c : BlockCache) (dev : Device) (start count : Nat) : Prop where
  kept : ∀ run ∈ c.slots, run.start = start → run.count = count →
    c.get dev start count = (.ok run.data, c.hit)
  fails : (∀ run ∈ c.slots, ¬ (run.start = start ∧ run.count = count)) →
    ∀ fault, dev.readBlocks start count = .error fault →
      c.get dev start count = (.error fault, c.miss)
  reads : (∀ run ∈ c.slots, ¬ (run.start = start ∧ run.count = count)) →
    ∀ data, dev.readBlocks start count = .ok data → c.size < c.capacity →
      c.get dev start count =
        (.ok data, { c.miss with slots := { start, count, data } :: c.slots })
  flushes : (∀ run ∈ c.slots, ¬ (run.start = start ∧ run.count = count)) →
    ∀ data, dev.readBlocks start count = .ok data → c.size = c.capacity →
      c.get dev start count = (.ok data, { c.miss with
        slots := { start, count, data } :: c.slots.take (c.capacity / 2)
        stats.evictions := c.stats.evictions + c.capacity / 2 })

variable {slots : Nat} {c : BlockCache} {log : List CacheEvent} {dev : Device} {start count : Nat}

/-! ## Looking for a run -/

theorem find?_eq_none : c.find? start count = none ↔
    ∀ run ∈ c.slots, ¬ (run.start = start ∧ run.count = count) := by
  simp [find?]

theorem of_find?_eq_some {run : CachedRun} (h : c.find? start count = some run) :
    run ∈ c.slots ∧ run.start = start ∧ run.count = count := by
  refine ⟨List.mem_of_find?_eq_some h, ?_⟩
  have hkey := List.find?_some h
  rwa [Bool.and_eq_true, beq_iff_eq, beq_iff_eq] at hkey

theorem find?_eq_some (hdistinct : (c.slots.map fun run => (run.start, run.count)).Nodup)
    {run : CachedRun} (hrun : run ∈ c.slots) (hstart : run.start = start)
    (hcount : run.count = count) : c.find? start count = some run := by
  cases hfind : c.find? start count with
  | none => exact absurd ⟨hstart, hcount⟩ (find?_eq_none.mp hfind run hrun)
  | some found =>
    obtain ⟨hin, hfoundStart, hfoundCount⟩ := of_find?_eq_some hfind
    have hkey : (found.start, found.count) = (run.start, run.count) := by
      rw [hfoundStart, hfoundCount, hstart, hcount]
    rw [List.inj_on_of_nodup_map hdistinct hin hrun hkey]

/-! ## One request -/

theorem makeRoom_of_lt (h : c.size < c.capacity) : c.makeRoom = c := if_neg (Nat.not_le.mpr h)

theorem makeRoom_of_full (heven : c.capacity % 2 = 0) (h : c.size = c.capacity) :
    c.makeRoom = { c with
      slots := c.slots.take (c.capacity / 2)
      stats.evictions := c.stats.evictions + c.capacity / 2 } := by
  have hhalf : c.slots.length - c.capacity / 2 = c.capacity / 2 := by
    rw [size] at h
    omega
  rw [makeRoom, if_pos (show c.slots.length ≥ c.capacity from Nat.le_of_eq h.symm)]
  dsimp only
  rw [hhalf]

theorem Books.serves (h : Books slots c log) (dev : Device) (start count : Nat) :
    Serves c dev start count where
  kept run hrun hstart hcount := by
    rw [get, find?_eq_some h.distinct hrun hstart hcount]
  fails hnone fault hread := by
    rw [get, find?_eq_none.mpr hnone, hread]
  reads hnone data hread hroom := by
    have hmade : c.miss.makeRoom = c.miss := makeRoom_of_lt hroom
    rw [get, find?_eq_none.mpr hnone, hread]
    dsimp only
    rw [insert, hmade]
    rfl
  flushes hnone data hread hfull := by
    have hmade := makeRoom_of_full (c := c.miss) h.even hfull
    rw [get, find?_eq_none.mpr hnone, hread]
    dsimp only
    rw [insert, hmade]
    rfl

/-! ## Any calls -/

theorem books_withCapacity (slots : Nat) : Books slots (withCapacity slots) [] where
  even := Nat.mul_mod_left _ _
  capacity := by
    show max slots 2 ≤ (max slots 2 + 1) / 2 * 2 ∧ (max slots 2 + 1) / 2 * 2 ≤ max slots 2 + 1
    omega
  room := Nat.zero_le _
  distinct := List.nodup_nil
  gets := rfl
  misses := rfl
  newest := List.nil_suffix
  given h := by cases h

/-- Clearing starts the books afresh. -/
theorem Books.clear (h : Books slots c log) : Books slots c.clear [] where
  even := h.even
  capacity := h.capacity
  room := Nat.zero_le _
  distinct := List.nodup_nil
  gets := rfl
  misses := rfl
  newest := List.nil_suffix
  given h := by cases h

theorem inserts_append (log : List CacheEvent) (e : CacheEvent) :
    inserts (log ++ [e]) = inserts log ++ e.run?.toList := by
  rw [inserts, List.filterMap_append, inserts]
  cases h : e.run? with
  | none => rw [List.filterMap_cons_none h]; rfl
  | some run => rw [List.filterMap_cons_some h]; rfl

theorem failures_append (log : List CacheEvent) (e : CacheEvent) :
    failures (log ++ [e]) = failures log + e.isFailed.toNat := by
  rw [failures, List.countP_append, failures, List.countP_singleton]
  cases e.isFailed <;> rfl

theorem Books.hit (h : Books slots c log) (start count : Nat) :
    Books slots c.hit (log ++ [.hit start count]) where
  even := h.even
  capacity := h.capacity
  room := h.room
  distinct := h.distinct
  gets := by
    have hgets := h.gets
    rw [List.length_append, ← hgets]
    exact Nat.succ_add _ _
  misses := by
    rw [failures_append]
    exact h.misses
  newest := by
    rw [inserts_append]
    show c.slots.reverse <:+ inserts log ++ []
    rw [List.append_nil]
    exact h.newest
  given hin := by
    simp only [List.mem_append, List.mem_singleton, reduceCtorEq, or_false] at hin
    exact h.given hin

theorem Books.miss (h : Books slots c log) (dev : Device) (start count : Nat) :
    Books slots c.miss (log ++ [.failed dev start count]) where
  even := h.even
  capacity := h.capacity
  room := h.room
  distinct := h.distinct
  gets := by
    have hgets := h.gets
    rw [List.length_append, ← hgets]
    rfl
  misses := by
    have hmisses := h.misses
    rw [failures_append]
    show c.stats.misses + 1 = c.size + c.stats.evictions + (failures log + 1)
    omega
  newest := by
    rw [inserts_append]
    show c.slots.reverse <:+ inserts log ++ []
    rw [List.append_nil]
    exact h.newest
  given hin := by
    simp only [List.mem_append, List.mem_singleton, reduceCtorEq, or_false] at hin
    exact h.given hin

/-- A run that was read is put in front of the newest of those that are kept. -/
theorem Books.insert {run : CachedRun} {left : List CachedRun} {dropped : Nat}
    (h : Books slots c log) (hnone : ∀ r ∈ c.slots, ¬ (r.start = run.start ∧ r.count = run.count))
    (hread : dev.readBlocks run.start run.count = .ok run.data) (hleft : left <+: c.slots)
    (hroom : left.length < c.capacity) (hdropped : left.length + dropped = c.size) :
    Books slots { c.miss with
      slots := run :: left
      stats.evictions := c.stats.evictions + dropped } (log ++ [.read dev run]) where
  even := h.even
  capacity := h.capacity
  room := hroom
  distinct := by
    rw [List.map_cons, List.nodup_cons]
    refine ⟨fun hin => ?_, (hleft.sublist.map _).nodup h.distinct⟩
    obtain ⟨r, hr, hkey⟩ := List.mem_map.mp hin
    exact hnone r (hleft.mem hr) (Prod.mk.inj hkey)
  gets := by
    have hgets := h.gets
    rw [List.length_append, ← hgets]
    rfl
  misses := by
    have hmisses := h.misses
    rw [failures_append]
    show c.stats.misses + 1 =
      (left.length + 1) + (c.stats.evictions + dropped) + (failures log + 0)
    omega
  newest := by
    rw [inserts_append, CacheEvent.run?, Option.toList_some]
    show (run :: left).reverse <:+ _
    rw [List.reverse_cons]
    obtain ⟨older, holder⟩ := (List.reverse_suffix.mpr hleft).trans h.newest
    exact ⟨older, by rw [← List.append_assoc, holder]⟩
  given {dev' run'} hin := by
    rw [List.mem_append, List.mem_singleton] at hin
    rcases hin with hin | hin
    · exact h.given hin
    · cases hin
      exact hread

/-- Whatever becomes of a request, the books go on. -/
theorem Books.get (h : Books slots c log) (dev : Device) (start count : Nat) :
    Books slots (c.get dev start count).2 (log ++ [c.event dev start count]) := by
  have hserves := h.serves dev start count
  rw [event]
  cases hfind : c.find? start count with
  | some run =>
    obtain ⟨hin, hstart, hcount⟩ := of_find?_eq_some hfind
    rw [hserves.kept run hin hstart hcount]
    exact h.hit start count
  | none =>
    have hnone := find?_eq_none.mp hfind
    cases hread : dev.readBlocks start count with
    | error fault =>
      rw [hserves.fails hnone fault hread]
      exact h.miss dev start count
    | ok data =>
      rcases Nat.lt_or_eq_of_le h.room with hlt | hfull
      · rw [hserves.reads hnone data hread hlt]
        exact h.insert hnone hread (List.prefix_refl _) hlt (Nat.add_zero c.size)
      · have heven := h.even
        have hcapacity := h.capacity
        have hhalf : (c.slots.take (c.capacity / 2)).length = c.capacity / 2 := by
          rw [List.length_take]
          rw [size] at hfull
          omega
        rw [hserves.flushes hnone data hread hfull]
        exact h.insert hnone hread (List.take_prefix _ _) (by omega) (by omega)

/-- The books are kept through any calls. -/
theorem Books.after : ∀ (calls : List CacheCall) {c : BlockCache} {log : List CacheEvent},
    Books slots c log → Books slots (c.after calls) (c.log log calls)
  | [], _, _, h => h
  | .get dev start count :: calls, _, _, h => (h.get dev start count).after calls
  | .clear :: calls, _, _, h => h.clear.after calls

theorem log_append (calls later : List CacheCall) (c : BlockCache) (seen : List CacheEvent) :
    c.log seen (calls ++ later) = (c.after calls).log (c.log seen calls) later := by
  induction calls generalizing c seen with
  | nil => rfl
  | cons call calls ih =>
    cases call with
    | get dev start count => exact ih _ _
    | clear => exact ih _ _

theorem length_log (c : BlockCache) (calls : List CacheCall) :
    (c.log [] calls).length = (calls.reverse.takeWhile CacheCall.isGet).length := by
  induction calls using List.reverseRecOn with
  | nil => rfl
  | append_singleton calls call ih =>
    rw [log_append, List.reverse_append, List.reverse_singleton, List.singleton_append]
    cases call with
    | get dev start count =>
      rw [List.takeWhile_cons_of_pos rfl, List.length_cons, ← ih]
      exact List.length_append
    | clear =>
      rw [List.takeWhile_cons_of_neg Bool.false_ne_true]
      rfl

/-- **The books of a cache.** After any calls, made with any devices, the capacity, the counters and
the runs of a cache are as the log says, which has an event for each request since the cache was
cleared last; and a request is answered by what is kept and by what the device gives, with what is
left of the cache known. -/
theorem get_booked (slots : Nat) (calls : List CacheCall) :
    Books slots ((withCapacity slots).after calls) ((withCapacity slots).log [] calls) ∧
      ((withCapacity slots).log [] calls).length =
        (calls.reverse.takeWhile CacheCall.isGet).length ∧
      ∀ dev start count, Serves ((withCapacity slots).after calls) dev start count := by
  have hbooks : Books slots ((withCapacity slots).after calls) ((withCapacity slots).log [] calls) :=
    (books_withCapacity slots).after calls
  exact ⟨hbooks, length_log _ calls, hbooks.serves⟩

/-- Three blocks through a cache of two: the oldest makes room, and is read again. -/
example : (((withCapacity 2).after [.get ⟨⟨#[5, 6, 7]⟩, 1⟩ 0 1, .get ⟨⟨#[5, 6, 7]⟩, 1⟩ 1 1,
    .get ⟨⟨#[5, 6, 7]⟩, 1⟩ 2 1, .get ⟨⟨#[8]⟩, 1⟩ 1 1, .get ⟨⟨#[8]⟩, 1⟩ 0 1]).slots.map
      fun run => (run.start, byteList run.data)) = [(0, [8]), (2, [7])] := by decide

end BlockCache

end XfsVolume
