import CodeAtlas.Cache.Store

/-! Signals: what the engine announces to whoever listens. -/
namespace CodeAtlas
open Json

inductive GraphEvent where
  | symbolsChanged (uris : List String) (symbolCount : Nat)
  | relationshipsChanged (relationshipCount : Nat)
  | indexUpdated (symbolCount : Nat)
  | queryExecuted (total : Nat) (elapsedMs : Float) (fromCache : Bool)
  | layoutComputed (algorithm : String) (nodeCount : Nat) (elapsedMs : Float)
  | cacheEvicted (store : CacheStore) (key reason : String)
  | cacheStatsUpdated (stats : CacheStats)
  | metricsUpdated (metrics : Json)

namespace GraphEvent

/-- The name listeners know a signal by. -/
def name : GraphEvent → String
  | symbolsChanged _ _ => "symbols-changed"
  | relationshipsChanged _ => "relationships-changed"
  | indexUpdated _ => "index-updated"
  | queryExecuted _ _ _ => "query-executed"
  | layoutComputed _ _ _ => "layout-computed"
  | cacheEvicted _ _ _ => "cache-evicted"
  | cacheStatsUpdated _ => "cache-stats-updated"
  | metricsUpdated _ => "performance-metrics-updated"

def fields : GraphEvent → List (String × Json)
  | symbolsChanged uris n => [("uris", encode uris), ("symbolCount", encode n)]
  | relationshipsChanged n => [("relationshipCount", encode n)]
  | indexUpdated n => [("symbolCount", encode n)]
  | queryExecuted total elapsed fromCache =>
    [("total", encode total), ("elapsedMs", encode elapsed), ("fromCache", encode fromCache)]
  | layoutComputed algorithm n elapsed =>
    [("algorithm", encode algorithm), ("nodeCount", encode n), ("elapsedMs", encode elapsed)]
  | cacheEvicted store key reason =>
    [("store", encode store), ("key", encode key), ("reason", encode reason)]
  | cacheStatsUpdated stats => [("stats", encode stats)]
  | metricsUpdated metrics => [("metrics", metrics)]

/-- The fields of the signal with this name. -/
def read (name : String) : Reader GraphEvent :=
  match name with
  | "symbols-changed" => return .symbolsChanged (← required "uris") (← required "symbolCount")
  | "relationships-changed" => return .relationshipsChanged (← required "relationshipCount")
  | "index-updated" => return .indexUpdated (← required "symbolCount")
  | "query-executed" =>
    return .queryExecuted (← required "total") (← required "elapsedMs") (← required "fromCache")
  | "layout-computed" =>
    return .layoutComputed (← required "algorithm") (← required "nodeCount") (← required "elapsedMs")
  | "cache-evicted" =>
    return .cacheEvicted (← required "store") (← required "key") (← required "reason")
  | "cache-stats-updated" => return .cacheStatsUpdated (← required "stats")
  | "performance-metrics-updated" => return .metricsUpdated (← required "metrics")
  | _ => failure

end GraphEvent

/-- The name of a signal is its field `type`, or the first item of its array. -/
instance : Wire GraphEvent where
  encode e := .obj (("type", .str e.name) :: e.fields)
  decode? j :=
    match j with
    | .obj fields =>
      match fields.lookup "type" with
      | some (.str name) => record? (GraphEvent.read name) (.obj fields)
      | _ => none
    | .arr (.str name :: rest) => record? (GraphEvent.read name) (.arr rest)
    | _ => none

end CodeAtlas
