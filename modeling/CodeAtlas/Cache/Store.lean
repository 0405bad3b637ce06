import CodeAtlas.Json.Wire
import CodeAtlas.Text.Chars

/-! The six logical stores of the cache, and its counters. -/
namespace CodeAtlas
open Json

inductive CacheStore where
  | symbols | references | relationships | graphData | layout | queryResult
deriving DecidableEq, Inhabited, Repr

namespace CacheStore

def all : List CacheStore := [symbols, references, relationships, graphData, layout, queryResult]

def name : CacheStore → String
  | symbols => "symbols"
  | references => "references"
  | relationships => "relationships"
  | graphData => "graph-data"
  | layout => "layout"
  | queryResult => "query-result"

/-- Position in the order of the stores. -/
def rank : CacheStore → Nat
  | symbols => 0
  | references => 1
  | relationships => 2
  | graphData => 3
  | layout => 4
  | queryResult => 5

/-- Read a name, whatever its ASCII case, with underscores for dashes. -/
def parse (text : String) : Except String CacheStore :=
  let lower := String.ofList ((Text.asciiLowercase (Text.trim text)).toList.map
    fun c => if c == '_' then '-' else c)
  match all.find? fun s => s.name == lower with
  | some s => .ok s
  | none => .error ("unknown cache store '" ++ text ++ "'")

end CacheStore

instance : Wire CacheStore := ⟨fun s => .str s.name, named? CacheStore.all CacheStore.name⟩

/-- What the cache holds now and what became of lookups so far. -/
structure CacheStats where
  totalSize : Nat := 0
  entryCount : Nat := 0
  hitCount : Nat := 0
  missCount : Nat := 0
  evictionCount : Nat := 0
deriving DecidableEq, Inhabited, Repr

/-- The share of lookups that found a value; zero before the first lookup. -/
def CacheStats.hitRate (s : CacheStats) : Float :=
  let lookups := s.hitCount + s.missCount
  if lookups == 0 then 0.0 else s.hitCount.toFloat / lookups.toFloat

instance : Wire CacheStats where
  encode s := .obj
    [("totalSize", encode s.totalSize), ("entryCount", encode s.entryCount),
      ("hitCount", encode s.hitCount), ("missCount", encode s.missCount),
      ("evictionCount", encode s.evictionCount)]
  decode? := record? do
    let totalSize ← required "totalSize"
    let entryCount ← required "entryCount"
    let hitCount ← required "hitCount"
    let missCount ← required "missCount"
    let evictionCount ← required "evictionCount"
    return { totalSize, entryCount, hitCount, missCount, evictionCount }

end CodeAtlas
