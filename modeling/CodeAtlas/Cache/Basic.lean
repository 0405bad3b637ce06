import CodeAtlas.Cache.Options
import CodeAtlas.Cache.Store
import CodeAtlas.Json.Printer
import CodeAtlas.Signal.Event
import CodeAtlas.Timer

/-! The cache: values of six stores under one size budget.

An entry is found by its store and key, and a value set again is a new entry. When
a new value does not fit, the entries of least worth make room, whatever their
store; a cleanup takes what is too old or was not used for long. Every eviction is
announced, and the counters are after every lookup. -/
namespace CodeAtlas

structure CacheEntry where
  store : CacheStore
  key : String
  data : Json
  size : Nat
  /-- The resources the value was made from. -/
  dependencies : List String
  /-- No two entries ever have the same number. -/
  seq : Nat
  created : Nat
  lastAccess : Nat
  /-- The time of day when it was set. -/
  cachedAt : Int
  accessCount : Nat := 0

structure Cache where
  options : CacheOptions := {}
  entries : List CacheEntry := []
  stats : CacheStats := {}
  nextSeq : Nat := 0
  clock : Clock := {}
  /-- When a resource last changed, where that is known. -/
  lastModified : String → Option Int := fun _ => none
  timer : Option Timer := none
  /-- Announced and not yet delivered, oldest first. -/
  signals : List GraphEvent := []

namespace CacheEntry

def age (e : CacheEntry) (now : Nat) : Nat := now - e.created

/-- Milliseconds as seconds: the whole ones, and then the rest. -/
def seconds (ms : Nat) : Float := (ms / 1000).toFloat + (ms % 1000 * 1000000).toFloat / 1e9

/-- Accesses times age. -/
def score (e : CacheEntry) (now : Nat) : Float := e.accessCount.toFloat * seconds (e.age now)

/-- The score as a rank: floats that are not negative are in the order of their bits. -/
def worth (e : CacheEntry) (now : Nat) : Nat := (e.score now).toBits.toNat

/-- Is an entry worth at most as much as another? What was accessed earlier is
worth less, and at last the store and the key decide. -/
def isWorthAtMost (now : Nat) (a b : CacheEntry) : Bool :=
  if a.worth now != b.worth now then a.worth now < b.worth now
  else if a.lastAccess != b.lastAccess then a.lastAccess < b.lastAccess
  else if a.store != b.store then a.store.rank < b.store.rank
  else a.key ≤ b.key

def isExpired (e : CacheEntry) (ttl now : Nat) : Bool := ttl < e.age now

/-- Not used for more than half the time it may live. -/
def isIdle (e : CacheEntry) (ttl now : Nat) : Bool := ttl < 2 * (now - e.lastAccess)

/-- Why a cleanup takes an entry, if it does. -/
def doom? (ttl now : Nat) (e : CacheEntry) : Option String :=
  if e.isExpired ttl now then some "expired" else if e.isIdle ttl now then some "idle" else none

def isAt (e : CacheEntry) (store : CacheStore) (key : String) : Bool := e.store == store && e.key == key

def touch (e : CacheEntry) (now : Nat) : CacheEntry :=
  { e with lastAccess := now, accessCount := e.accessCount + 1 }

/-- The order of stores, and within a store of keys. -/
def isBefore (a b : CacheEntry) : Bool :=
  if a.store != b.store then a.store.rank < b.store.rank else a.key ≤ b.key

end CacheEntry

namespace Cache

/-- A cache whose first cleanup is due after one interval. -/
def ofOptions (options : CacheOptions) (clock : Clock) : Cache :=
  { options, clock, timer := Timer.start? clock.now options.cleanupInterval }

/-! ### Reading -/

def find? (c : Cache) (store : CacheStore) (key : String) : Option CacheEntry :=
  c.entries.find? (·.isAt store key)

def contains (c : Cache) (store : CacheStore) (key : String) : Bool := (c.find? store key).isSome

def entriesOf (c : Cache) (store : CacheStore) : List CacheEntry := c.entries.filter (·.store == store)

def size (c : Cache) (store : CacheStore) : Nat := (c.entriesOf store).length

/-- Twice the length of the text of a value. -/
def approximateSize (data : Json) : Nat := data.compact.utf8ByteSize * 2

/-! ### Single entries -/

def announce (c : Cache) (e : GraphEvent) : Cache := { c with signals := c.signals ++ [e] }

def publish (c : Cache) : Cache := c.announce (.cacheStatsUpdated c.stats)

/-- Put an entry in; there must be none in its place. -/
def add (c : Cache) (e : CacheEntry) : Cache :=
  { c with
    entries := c.entries ++ [e]
    stats := { c.stats with
      totalSize := c.stats.totalSize + e.size
      entryCount := c.stats.entryCount + 1 } }

/-- Take an entry out. -/
def remove (c : Cache) (store : CacheStore) (key : String) : Cache :=
  match c.find? store key with
  | none => c
  | some e =>
    { c with
      entries := c.entries.filter fun e => !e.isAt store key
      stats := { c.stats with
        totalSize := c.stats.totalSize - e.size
        entryCount := c.stats.entryCount - 1 } }

/-- Take an entry out and tell why. -/
def evict (c : Cache) (store : CacheStore) (key reason : String) : Cache :=
  if c.contains store key then
    let c := c.remove store key
    { c with stats := { c.stats with evictionCount := c.stats.evictionCount + 1 } }.announce
      (.cacheEvicted store key reason)
  else c

def evictAll (c : Cache) (doomed : List (CacheEntry × String)) : Cache :=
  doomed.foldl (fun c (e, reason) => c.evict e.store e.key reason) c

/-! ### Setting -/

/-- Is there room for a value? -/
def fits (c : Cache) (incoming : Nat) : Bool := c.stats.totalSize + incoming ≤ c.options.maxSize

/-- Evict the candidates one by one until there is room. -/
def makeRoom (incoming : Nat) : List CacheEntry → Cache → Cache
  | [], c => c
  | e :: rest, c =>
    if c.fits incoming then c else makeRoom incoming rest (c.evict e.store e.key "space-needed")

/-- All entries, those of least worth first. -/
def byWorth (c : Cache) : List CacheEntry := c.entries.mergeSort (CacheEntry.isWorthAtMost c.clock.now)

/-- Set a value. -/
def set (store : CacheStore) (key : String) (data : Json) (dependencies : List String) (c : Cache) :
    Cache :=
  let size := approximateSize data
  let c := c.remove store key
  let c := makeRoom size c.byWorth c
  let e : CacheEntry :=
    { store, key, data, size, dependencies, seq := c.nextSeq, created := c.clock.now
      lastAccess := c.clock.now, cachedAt := c.clock.wall }
  { c.add e with nextSeq := c.nextSeq + 1 }

/-! ### Clearing -/

/-- Evict one entry, if it is there. -/
def invalidate (store : CacheStore) (key reason : String) : StateM Cache Bool := fun c =>
  (c.contains store key, c.evict store key reason)

/-- Empty one store; the counters of lookups and evictions go on. -/
def clearStore (store : CacheStore) (c : Cache) : Cache :=
  ((c.entriesOf store).foldl (fun c e => c.remove e.store e.key) c).publish

/-- Empty all stores and count anew. -/
def clearAll (c : Cache) : Cache := { c with entries := [], stats := {} }.publish

def clear : Option CacheStore → Cache → Cache
  | some store => clearStore store
  | none => clearAll

/-! ### Maintenance -/

/-- How many entries of each store an optimization keeps. -/
def keptPerStore (c : Cache) : Nat := max (c.options.maxEntries / CacheStore.all.length) 1

/-- The entries of a store that are too many, those of least worth first. -/
def excess (c : Cache) (store : CacheStore) : List CacheEntry :=
  let ranked := (c.entriesOf store).mergeSort (CacheEntry.isWorthAtMost c.clock.now)
  ranked.take (ranked.length - c.keptPerStore)

/-- Keep the best entries of every store. -/
def optimize : StateM Cache Nat := fun c =>
  let doomed := CacheStore.all.flatMap c.excess
  (doomed.length, (c.evictAll (doomed.map fun e => (e, "optimize"))).publish)

/-- What a cleanup takes now, in the order of stores and keys. -/
def doomed (c : Cache) : List (CacheEntry × String) :=
  (c.entries.mergeSort CacheEntry.isBefore).filterMap fun e =>
    (e.doom? c.options.ttl c.clock.now).map fun reason => (e, reason)

/-- Take what is too old or was not used for long. -/
def sweep : StateM Cache Nat := fun c =>
  (c.doomed.length, c.evictAll c.doomed)

/-- Change the options; cleanups are timed from now on. -/
def setOptions (u : CacheOptionsUpdate) : StateM Cache (Except AtlasError CacheOptions) := fun c =>
  match u.apply c.options with
  | .error e => (.error e, c)
  | .ok options =>
    (.ok options, { c with options, timer := Timer.start? c.clock.now options.cleanupInterval })

/-- Stop the cleanups and empty all stores. -/
def dispose (c : Cache) : Cache := { c with timer := none }.clearAll

/-! ### Time -/

def atMoment (c : Cache) (now : Nat) : Cache := { c with clock := { c.clock with now } }

/-- A cleanup at a moment. -/
def sweepAt (c : Cache) (moment : Nat) : Cache := (sweep (c.atMoment moment)).2

/-- Let time pass; every cleanup that is due on the way takes place at its moment. -/
def elapse (ms : Nat) (c : Cache) : Cache :=
  let stop := c.clock.now + ms
  let moments := (c.timer.map (·.dueUntil stop)).getD []
  let c := moments.foldl sweepAt c
  { c.atMoment stop with timer := c.timer.map (·.after stop) }

end Cache

end CodeAtlas
