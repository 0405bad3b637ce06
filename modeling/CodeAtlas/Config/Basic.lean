import CodeAtlas.Cache.Options
import CodeAtlas.KeyMap
import CodeAtlas.Layout.Options
import CodeAtlas.Query.Validation
import CodeAtlas.Scope

/-! The configuration of a workspace.

Every section and every setting has a default, so an empty configuration is a
complete one. -/
namespace CodeAtlas
open Json

structure IndexSettings where
  includeTests : Bool := false
  /-- Larger files are not analysed. -/
  maxFileBytes : Nat := 1048576
deriving DecidableEq, Inhabited, Repr

structure CacheSettings where
  maxSizeBytes : Nat := 52428800
  maxEntries : Nat := 6000
  ttlSecs : Nat := 1800
  cleanupIntervalSecs : Nat := 300
deriving DecidableEq, Inhabited, Repr

structure LayoutSettings where
  algorithm : String := "force-directed"
  width : Float := 1200.0
  height : Float := 800.0
  nodeSpacing : Float := 60.0
  iterations : Nat := 300
  gravity : Float := 0.01
  charge : Float := -300.0
  linkDistance : Float := 100.0
  linkStrength : Float := 0.05
  velocityDamping : Float := 0.6
  velocityDecay : Float := 0.9
deriving Inhabited

structure ServerSettings where
  host : String := "127.0.0.1"
  port : UInt16 := 7890
  metricsIntervalSecs : Nat := 30
deriving DecidableEq, Inhabited, Repr

structure LoggingSettings where
  /-- The level of everything not named in `modules`. -/
  default : String := "info"
  modules : KeyMap String := {}

structure AtlasConfig where
  index : IndexSettings := {}
  query : QuerySettings := {}
  cache : CacheSettings := {}
  layout : LayoutSettings := {}
  server : ServerSettings := {}
  logging : LoggingSettings := {}

/-- The options of the cache with these settings. -/
def CacheSettings.options (s : CacheSettings) : CacheOptions :=
  { maxSize := s.maxSizeBytes
    maxEntries := s.maxEntries
    ttl := 1000 * s.ttlSecs
    cleanupInterval := 1000 * s.cleanupIntervalSecs }

/-- The options of layouts with these settings. -/
def LayoutSettings.options (s : LayoutSettings) : LayoutOptions :=
  { width := s.width, height := s.height, nodeSpacing := s.nodeSpacing, iterations := s.iterations
    gravity := s.gravity, charge := s.charge, linkDistance := s.linkDistance
    linkStrength := s.linkStrength, velocityDamping := s.velocityDamping
    velocityDecay := s.velocityDecay }

/-- What to log: the level of all, and the levels of single modules. -/
def LoggingSettings.directive (s : LoggingSettings) : String :=
  s.modules.entries.foldl (fun text (module, level) => text ++ "," ++ module ++ "=" ++ level) s.default

namespace AtlasConfig

/-- Why a configuration cannot be used, if that is so. -/
def fault? (c : AtlasConfig) : Option String :=
  if c.cache.maxEntries == 0 then some "cache.max_entries must be positive"
  else if c.cache.cleanupIntervalSecs == 0 then some "cache.cleanup_interval_secs must be positive"
  else if !isValidExtent c.layout.width || !isValidExtent c.layout.height then
    some "layout canvas must have a positive size"
  else if c.query.resultCacheCapacity == 0 then some "query.result_cache_capacity must be positive"
  else none

/-- The scope of requests that name none. -/
def scope (c : AtlasConfig) : QueryScope := { includeTests := c.index.includeTests }

end AtlasConfig

instance : Wire UInt16 where
  encode n := .int n.toNat
  decode? j := do
    let n ← nat? j
    if n < UInt16.size then some n.toUInt16 else none

instance : Wire (KeyMap String) where
  encode m := .obj (m.entries.map fun (k, v) => (k, .str v))
  decode?
    | .obj fields => fields.foldlM (fun m (k, v) => (decode? v).map (m.insert k)) {}
    | _ => none

instance : Wire IndexSettings where
  encode s := .obj [("include_tests", encode s.includeTests), ("max_file_bytes", encode s.maxFileBytes)]
  decode? := record? do
    let d : IndexSettings := {}
    let includeTests ← withDefault "include_tests" d.includeTests
    let maxFileBytes ← withDefault "max_file_bytes" d.maxFileBytes
    return { includeTests, maxFileBytes }

instance : Wire QuerySettings where
  encode s := .obj
    [("result_cache_capacity", encode s.resultCacheCapacity), ("max_limit", encode s.maxLimit)]
  decode? := record? do
    let d : QuerySettings := {}
    let resultCacheCapacity ← withDefault "result_cache_capacity" d.resultCacheCapacity
    let maxLimit ← withDefault "max_limit" d.maxLimit
    return { resultCacheCapacity, maxLimit }

instance : Wire CacheSettings where
  encode s := .obj
    [("max_size_bytes", encode s.maxSizeBytes), ("max_entries", encode s.maxEntries),
      ("ttl_secs", encode s.ttlSecs), ("cleanup_interval_secs", encode s.cleanupIntervalSecs)]
  decode? := record? do
    let d : CacheSettings := {}
    let maxSizeBytes ← withDefault "max_size_bytes" d.maxSizeBytes
    let maxEntries ← withDefault "max_entries" d.maxEntries
    let ttlSecs ← withDefault "ttl_secs" d.ttlSecs
    let cleanupIntervalSecs ← withDefault "cleanup_interval_secs" d.cleanupIntervalSecs
    return { maxSizeBytes, maxEntries, ttlSecs, cleanupIntervalSecs }

instance : Wire LayoutSettings where
  encode s := .obj
    [("algorithm", encode s.algorithm), ("width", encode s.width), ("height", encode s.height),
      ("node_spacing", encode s.nodeSpacing), ("iterations", encode s.iterations),
      ("gravity", encode s.gravity), ("charge", encode s.charge),
      ("link_distance", encode s.linkDistance), ("link_strength", encode s.linkStrength),
      ("velocity_damping", encode s.velocityDamping), ("velocity_decay", encode s.velocityDecay)]
  decode? := record? do
    let d : LayoutSettings := {}
    let algorithm ← withDefault "algorithm" d.algorithm
    let width ← withDefault "width" d.width
    let height ← withDefault "height" d.height
    let nodeSpacing ← withDefault "node_spacing" d.nodeSpacing
    let iterations ← withDefault "iterations" d.iterations
    let gravity ← withDefault "gravity" d.gravity
    let charge ← withDefault "charge" d.charge
    let linkDistance ← withDefault "link_distance" d.linkDistance
    let linkStrength ← withDefault "link_strength" d.linkStrength
    let velocityDamping ← withDefault "velocity_damping" d.velocityDamping
    let velocityDecay ← withDefault "velocity_decay" d.velocityDecay
    return { algorithm, width, height, nodeSpacing, iterations, gravity, charge, linkDistance,
             linkStrength, velocityDamping, velocityDecay }

instance : Wire ServerSettings where
  encode s := .obj
    [("host", encode s.host), ("port", encode s.port),
      ("metrics_interval_secs", encode s.metricsIntervalSecs)]
  decode? := record? do
    let d : ServerSettings := {}
    let host ← withDefault "host" d.host
    let port ← withDefault "port" d.port
    let metricsIntervalSecs ← withDefault "metrics_interval_secs" d.metricsIntervalSecs
    return { host, port, metricsIntervalSecs }

instance : Wire LoggingSettings where
  encode s := .obj [("default", encode s.default), ("modules", encode s.modules)]
  decode? := record? do
    let d : LoggingSettings := {}
    let default ← withDefault "default" d.default
    let modules ← withDefault "modules" d.modules
    return { default, modules }

instance : Wire AtlasConfig where
  encode c := .obj
    [("index", encode c.index), ("query", encode c.query), ("cache", encode c.cache),
      ("layout", encode c.layout), ("server", encode c.server), ("logging", encode c.logging)]
  decode? := record? do
    let index ← withDefault "index" {}
    let query ← withDefault "query" {}
    let cache ← withDefault "cache" {}
    let layout ← withDefault "layout" {}
    let server ← withDefault "server" {}
    let logging ← withDefault "logging" {}
    return { index, query, cache, layout, server, logging }

end CodeAtlas
