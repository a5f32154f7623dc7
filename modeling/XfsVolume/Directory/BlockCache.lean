import XfsVolume.Device.Basic

/-!
# Cache of directory blocks

The cache keeps runs of device blocks that were read, newest first. When all slots are taken, the
older half is dropped to make room. It does not know when the device changes: a run that is kept is
handed out as it was when it was read. Failed reads leave nothing behind but the count of misses.
-/

namespace XfsVolume

/-- A run of blocks as it was read. -/
structure CachedRun where
  start : Nat
  count : Nat
  data : ByteArray

/-- Counters of a cache. -/
structure CacheStats where
  hits : Nat := 0
  misses : Nat := 0
  evictions : Nat := 0
  deriving DecidableEq

/-- Runs of blocks that were read, newest first. -/
structure BlockCache where
  slots : List CachedRun
  capacity : Nat
  stats : CacheStats

/-- Slots of a cache whose size is not chosen. -/
def defaultCacheSlots : Nat := 128

namespace BlockCache

/-- Empty cache with room for `slots` runs, rounded up to an even number of at least two. -/
def withCapacity (slots : Nat) : BlockCache where
  slots := []
  capacity := (max slots 2 + 1) / 2 * 2
  stats := {}

/-- Number of runs kept. -/
def size (c : BlockCache) : Nat := c.slots.length

/-- The cache without its runs and with its counters at zero. -/
def clear (c : BlockCache) : BlockCache := { c with slots := [], stats := {} }

/-- The run of `count` blocks from `start` on, if it is kept. -/
def find? (c : BlockCache) (start count : Nat) : Option CachedRun :=
  c.slots.find? fun r => r.start == start && r.count == count

/-- The cache with one more hit. -/
def hit (c : BlockCache) : BlockCache := { c with stats.hits := c.stats.hits + 1 }

/-- The cache with one more miss. -/
def miss (c : BlockCache) : BlockCache := { c with stats.misses := c.stats.misses + 1 }

/-- The cache with room for one more run. -/
def makeRoom (c : BlockCache) : BlockCache :=
  if c.slots.length ≥ c.capacity then
    let half := c.capacity / 2
    { c with
      slots := c.slots.take (c.slots.length - half)
      stats.evictions := c.stats.evictions + half }
  else c

/-- The cache with `run` as its newest. -/
def insert (c : BlockCache) (run : CachedRun) : BlockCache :=
  let c := c.makeRoom
  { c with slots := run :: c.slots }

/-- The `count` blocks of `dev` from `start` on, kept or read, and the cache afterwards. -/
def get (c : BlockCache) (dev : Device) (start count : Nat) :
    Except DeviceFault ByteArray × BlockCache :=
  match c.find? start count with
  | some run => (.ok run.data, c.hit)
  | none =>
    match dev.readBlocks start count with
    | .ok data => (.ok data, c.miss.insert { start, count, data })
    | .error fault => (.error fault, c.miss)

end BlockCache

end XfsVolume
