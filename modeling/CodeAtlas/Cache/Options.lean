import CodeAtlas.Error
import CodeAtlas.Json.Wire

/-! What the cache is allowed to hold, and for how long. -/
namespace CodeAtlas
open Json

structure CacheOptions where
  /-- The size all entries together may reach. -/
  maxSize : Nat := 52428800
  maxEntries : Nat := 6000
  /-- How old an entry may get, in milliseconds. -/
  ttl : Nat := 1800000
  /-- The time between two cleanups, in milliseconds. -/
  cleanupInterval : Nat := 300000
deriving DecidableEq, Inhabited, Repr

/-- Some of the options, times in seconds; the others stay as they are. -/
structure CacheOptionsUpdate where
  maxSize : Option Nat := none
  maxEntries : Option Nat := none
  ttlSecs : Option Nat := none
  cleanupIntervalSecs : Option Nat := none
deriving DecidableEq, Inhabited, Repr

namespace CacheOptionsUpdate

def apply (u : CacheOptionsUpdate) (o : CacheOptions) : Except AtlasError CacheOptions :=
  if u.maxEntries == some 0 then .error (.badConfig "maxEntries must be positive")
  else if u.cleanupIntervalSecs == some 0 then
    .error (.badConfig "cleanupIntervalSecs must be positive")
  else
    .ok { maxSize := u.maxSize.getD o.maxSize
          maxEntries := u.maxEntries.getD o.maxEntries
          ttl := (u.ttlSecs.map (1000 * ·)).getD o.ttl
          cleanupInterval := (u.cleanupIntervalSecs.map (1000 * ·)).getD o.cleanupInterval }

end CacheOptionsUpdate

/-- Options are written in whole seconds. -/
def CacheOptions.toJson (o : CacheOptions) : Json :=
  .obj [("maxSize", encode o.maxSize), ("maxEntries", encode o.maxEntries),
    ("ttlSecs", encode (o.ttl / 1000)), ("cleanupIntervalSecs", encode (o.cleanupInterval / 1000))]

instance : Wire CacheOptionsUpdate where
  encode u := .obj
    [("maxSize", encode u.maxSize), ("maxEntries", encode u.maxEntries), ("ttlSecs", encode u.ttlSecs),
      ("cleanupIntervalSecs", encode u.cleanupIntervalSecs)]
  decode? := record? do
    let maxSize ← optional "maxSize"
    let maxEntries ← optional "maxEntries"
    let ttlSecs ← optional "ttlSecs"
    let cleanupIntervalSecs ← optional "cleanupIntervalSecs"
    return { maxSize, maxEntries, ttlSecs, cleanupIntervalSecs }

end CodeAtlas
