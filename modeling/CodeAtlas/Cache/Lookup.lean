import CodeAtlas.Cache.Basic
import CodeAtlas.Routine

/-! Looking up cached values.

A lookup has two sections. The first finds an entry that is not too old. Then the
dependencies of the entry are asked for one by one, and others may use the cache
meanwhile. The second section looks again: only if the very same entry is still
there is its value returned, or the entry evicted because a dependency changed. -/
namespace CodeAtlas.Cache
open Json

/-- What the first section keeps of an entry. -/
structure Candidate where
  seq : Nat
  dependencies : List String
  cachedAt : Int

def miss (c : Cache) : Option Json × Cache :=
  (none, { c with stats := { c.stats with missCount := c.stats.missCount + 1 } }.publish)

/-- Replace an entry by itself, touched. -/
def touch (c : Cache) (store : CacheStore) (key : String) : Cache :=
  { c with entries := c.entries.map fun e => if e.isAt store key then e.touch c.clock.now else e }

def hit (c : Cache) (e : CacheEntry) : Option Json × Cache :=
  let c := c.touch e.store e.key
  (some e.data, { c with stats := { c.stats with hitCount := c.stats.hitCount + 1 } }.publish)

/-- The first section: an entry that is not too old, or a miss. -/
def beginLookup (store : CacheStore) (key : String) : StateM Cache (Option Candidate) := fun c =>
  match c.find? store key with
  | none => (none, c.miss.2)
  | some e =>
    if e.isExpired c.options.ttl c.clock.now then (none, (c.evict store key "expired").miss.2)
    else (some ⟨e.seq, e.dependencies, e.cachedAt⟩, c)

/-- The second section: the entry itself, if it is still there and not stale. -/
def endLookup (store : CacheStore) (key : String) (seq : Nat) (stale : Bool) :
    StateM Cache (Option Json) := fun c =>
  match c.find? store key with
  | none => c.miss
  | some e =>
    if e.seq != seq then c.miss
    else if stale then (c.evict store key "stale").miss
    else c.hit e

/-- Did a resource change after a moment? One whose time is unknown did not. -/
def changedSince (resource : String) (cachedAt : Int) (c : Cache) : Bool :=
  match c.lastModified resource with
  | some t => cachedAt < t
  | none => false

/-- Ask for the resources one by one, until one has changed. -/
def isStale (cachedAt : Int) : List String → Routine Cache Bool
  | [] => return false
  | resource :: rest => do
    if ← Routine.look (changedSince resource cachedAt) then return true
    isStale cachedAt rest

/-- Look up a value. -/
def get (store : CacheStore) (key : String) : Routine Cache (Option Json) := do
  match ← Routine.atomic (beginLookup store key) with
  | none => return none
  | some found =>
    let stale ← isStale found.cachedAt found.dependencies
    Routine.atomic (endLookup store key found.seq stale)

/-- Look up a value of a certain type; a value of another type is as good as none. -/
def getAs {α : Type} [Wire α] (store : CacheStore) (key : String) : Routine Cache (Option α) := do
  return (← get store key).bind decode?

end CodeAtlas.Cache
