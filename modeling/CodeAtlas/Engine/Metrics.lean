import CodeAtlas.Cache.Basic
import CodeAtlas.Cache.Store

/-! Performance counters. -/
namespace CodeAtlas
open Json

/-- Timings, added up as requests finish. -/
structure Metrics where
  indexBuildMs : Float := 0.0
  queryCount : Nat := 0
  totalQueryMs : Float := 0.0
  layoutCount : Nat := 0
  lastLayoutMs : Float := 0.0
deriving Inhabited

namespace Metrics

def recordIndexBuild (elapsedMs : Float) (m : Metrics) : Metrics := { m with indexBuildMs := elapsedMs }

def recordQuery (elapsedMs : Float) (m : Metrics) : Metrics :=
  { m with queryCount := m.queryCount + 1, totalQueryMs := m.totalQueryMs + elapsedMs }

def recordLayout (elapsedMs : Float) (m : Metrics) : Metrics :=
  { m with layoutCount := m.layoutCount + 1, lastLayoutMs := elapsedMs }

/-- Zero before the first query. -/
def averageQueryMs (m : Metrics) : Float :=
  if m.queryCount == 0 then 0.0 else m.totalQueryMs / m.queryCount.toFloat

end Metrics

/-- All there is to tell about the performance at one moment. -/
structure PerformanceMetrics where
  fileCount : Nat
  symbolCount : Nat
  relationshipCount : Nat
  cachedQueries : Nat
  cache : CacheStats
  timings : Metrics
  /-- In milliseconds. -/
  uptime : Nat

def PerformanceMetrics.toJson (p : PerformanceMetrics) : Json := .obj
  [("indexBuildMs", encode p.timings.indexBuildMs), ("fileCount", encode p.fileCount),
    ("symbolCount", encode p.symbolCount), ("relationshipCount", encode p.relationshipCount),
    ("queryCount", encode p.timings.queryCount), ("averageQueryMs", encode p.timings.averageQueryMs),
    ("cachedQueries", encode p.cachedQueries), ("layoutCount", encode p.timings.layoutCount),
    ("lastLayoutMs", encode p.timings.lastLayoutMs), ("cache", encode p.cache),
    ("cacheHitRate", encode p.cache.hitRate), ("uptimeSecs", encode (CacheEntry.seconds p.uptime))]

/-- What a health check tells. -/
structure HealthStatus where
  provider : String
  indexedFiles : Nat
  symbolCount : Nat
  cacheEntries : Nat
  layoutAlgorithms : List String
  /-- In milliseconds. -/
  uptime : Nat

def HealthStatus.toJson (h : HealthStatus) : Json := .obj
  [("status", .str "ok"), ("version", .str "0.1.0"), ("provider", encode h.provider),
    ("indexedFiles", encode h.indexedFiles), ("symbolCount", encode h.symbolCount),
    ("cacheEntries", encode h.cacheEntries), ("layoutAlgorithms", encode h.layoutAlgorithms),
    ("uptimeSecs", encode (CacheEntry.seconds h.uptime))]

end CodeAtlas
