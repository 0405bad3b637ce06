import CodeAtlas.Cache.Dependencies
import CodeAtlas.Cache.Lookup
import CodeAtlas.Config.Basic
import CodeAtlas.Engine.Metrics
import CodeAtlas.Layout.Engine
import CodeAtlas.Layout.Quality
import CodeAtlas.Query.Search
import CodeAtlas.Text.Digest

/-! The engine: search, cache, layouts and counters behind one set of requests.

A request is a routine of sections, between which other requests may run. Results
are looked up in the cache before they are computed and stored in it afterwards,
and whatever derives from the index is dropped when the index has changed. -/
namespace CodeAtlas
open Json

/-- Whom the engine asks. -/
structure Collaborators where
  provider : Provider
  resolver : Resolver
  /-- What the layout of a request draws if it has no seed. -/
  drawn : Random.Generator

structure Engine where
  search : Search
  cache : Cache
  layout : LayoutEngine
  metrics : Metrics := {}
  /-- The scope of requests that name none. -/
  scope : QueryScope := {}
  /-- The algorithm of layouts that name none. -/
  defaultAlgorithm : String
  /-- How many requests for graph data have begun. -/
  graphGeneration : Nat := 0
  metricsTimer : Option Timer := none
  /-- The moment it was made. -/
  started : Nat := 0
  isShutDown : Bool := false
  /-- Announced and not yet delivered, oldest first. -/
  signals : List GraphEvent := []

namespace Engine

def ofConfig (config : AtlasConfig) (clock : Clock) : Engine :=
  { search := .ofSettings config.query
    cache := .ofOptions config.cache.options clock
    layout := .ofDefaults config.layout.options
    scope := config.scope
    defaultAlgorithm := config.layout.algorithm
    started := clock.now }

/-! ### Parts -/

variable {α : Type}

/-- The cache as a part of the engine; what it announces is passed on. -/
def withCache (c : Cache) (e : Engine) : Engine :=
  { e with cache := { c with signals := [] }, signals := e.signals ++ c.signals }

/-- The search as a part of the engine; what it announces is passed on. -/
def withSearch (s : Search) (e : Engine) : Engine :=
  { e with search := { s with signals := [] }, signals := e.signals ++ s.signals }

/-- The layout engine as a part of the engine; what it announces is passed on. -/
def withLayout (l : LayoutEngine) (e : Engine) : Engine :=
  { e with layout := { l with signals := [] }, signals := e.signals ++ l.signals }

def onCache (r : Routine Cache α) : Routine Engine α := r.within Engine.cache withCache

def onSearch (r : Routine Search α) : Routine Engine α := r.within Engine.search withSearch

def onIndex (r : Routine Index α) : Routine Engine α := onSearch (Search.onIndex r)

def onLayout (act : StateM LayoutEngine α) : Routine Engine α :=
  (Routine.atomic act).within Engine.layout withLayout

def changeCache (f : Cache → Cache) : Routine Engine Unit := onCache (Routine.change f)

def record (f : Metrics → Metrics) : Routine Engine Unit :=
  Routine.change fun e => { e with metrics := f e.metrics }

def announce (event : GraphEvent) : Routine Engine Unit :=
  Routine.change fun e => { e with signals := e.signals ++ [event] }

/-- The scope of a request. -/
def scopeOr (scope : Option QueryScope) : Routine Engine QueryScope :=
  match scope with
  | some s => return s
  | none => Routine.look Engine.scope

/-- Store a value in the cache. -/
def store [Wire α] (place : CacheStore) (key : String) (value : α) (dependencies : List String) :
    Routine Engine Unit :=
  changeCache (Cache.set place key (encode value) dependencies)

/-! ### Index -/

/-- The stores whose values derive from the index. -/
def indexDerivedStores : List CacheStore := [.symbols, .relationships, .graphData, .queryResult]

def clearStores : List CacheStore → Routine Engine Unit
  | [] => return ()
  | s :: rest => do
    changeCache (Cache.clearStore s)
    clearStores rest

/-- Drop what derives from the index. -/
def dropIndexDerived : Routine Engine Unit := do
  onSearch Search.clearResults
  clearStores indexDerivedStores

def buildIndex (c : Collaborators) (scope : Option QueryScope) :
    Routine Engine (Except AtlasError IndexSummary) := do
  let scope ← scopeOr scope
  match ← onIndex (Index.build c.provider c.resolver scope) with
  | .error e => return .error e
  | .ok summary =>
    dropIndexDerived
    record (Metrics.recordIndexBuild summary.elapsedMs)
    return .ok summary

def updateIndex (c : Collaborators) (uris : List String) : Routine Engine IndexSummary := do
  let summary ← onIndex (Index.update c.provider uris)
  dropIndexDerived
  return summary

def clearIndex : Routine Engine Unit := do
  onSearch Search.clearIndex
  dropIndexDerived

/-! ### Queries -/

/-- A result that was found in the cache. -/
def recalled (r : QueryResult) : QueryResult := { r with fromCache := true, executionTimeMs := 0.0 }

def executeQuery (c : Collaborators) (q : GraphQuery) (scope : Option QueryScope) :
    Routine Engine (Except AtlasError QueryResult) := do
  let scope ← scopeOr scope
  let key := q.cacheKey scope
  match (← onCache (Cache.getAs .queryResult key) : Option QueryResult) with
  | some found =>
    let found := recalled found
    announce (Search.executed found)
    record (Metrics.recordQuery found.executionTimeMs)
    return .ok found
  | none =>
    match ← onSearch (Search.execute c.provider c.resolver q scope) with
    | .error e => return .error e
    | .ok result =>
      store .queryResult key result (Dependencies.ofSymbols result.symbols)
      record (Metrics.recordQuery result.executionTimeMs)
      return .ok result

def executeText (c : Collaborators) (text : String) (scope : Option QueryScope) :
    Routine Engine (Except AtlasError QueryResult) :=
  executeQuery c (GraphQuery.ofText text) scope

def symbolNames : Routine Engine (List String) := onIndex (Routine.look Index.symbolNames)

def querySuggestions (text : String) : Routine Engine (List String) := do
  return Suggestion.queries text (← symbolNames)

def symbolSuggestions (text : String) : Routine Engine (List String) := do
  return Suggestion.symbols text (← symbolNames)

/-! ### Graph data -/

/-- Every symbol. -/
def everything : GraphQuery := { select := { symbols := some ["*"] } }

/-- Number a request for graph data; the newest request has the greatest number. -/
def takeTicket : Routine Engine Nat := Routine.atomic fun e =>
  (e.graphGeneration + 1, { e with graphGeneration := e.graphGeneration + 1 })

def isCurrent (ticket : Nat) : Routine Engine Bool := Routine.look fun e => e.graphGeneration == ticket

def superseded : AtlasError := .superseded "getGraphData"

/-- The nodes and edges of a query, or of every symbol. A request that finds a newer
one begun when it goes on is given up. -/
def getGraphData (c : Collaborators) (query : Option GraphQuery) (scope : Option QueryScope) :
    Routine Engine (Except AtlasError GraphData) := do
  let ticket ← takeTicket
  let scope ← scopeOr scope
  let query := query.getD everything
  let key := query.cacheKey scope
  let found : Option GraphData ← onCache (Cache.getAs .graphData key)
  if !(← isCurrent ticket) then return .error superseded
  match found with
  | some data => return .ok data
  | none =>
    match ← executeQuery c query (some scope) with
    | .error e => return .error e
    | .ok result =>
      if !(← isCurrent ticket) then return .error superseded
      let relationships ← onIndex (Routine.look fun ix => ix.relationshipsInScope scope)
      if !(← isCurrent ticket) then return .error superseded
      let data := GraphData.ofParts result.symbols (relationships ++ result.relationships)
      store .graphData key data (Dependencies.ofGraph data)
      return .ok data

/-! ### Files -/

/-- A value from the cache, or else read from the index and stored. -/
def cachedRead [Wire α] (place : CacheStore) (key : String) (read : Index → α)
    (dependencies : α → List String) : Routine Engine α := do
  match (← onCache (Cache.getAs place key) : Option α) with
  | some found => return found
  | none =>
    let value ← onIndex (Routine.look read)
    store place key value (dependencies value)
    return value

def fileSymbols (uri : String) : Routine Engine (List Symbol) :=
  cachedRead .symbols uri (Index.fileSymbols · uri) fun _ => Dependencies.ofFile uri

def fileRelationships (uri : String) : Routine Engine (List Relationship) :=
  cachedRead .relationships uri (Index.fileRelationships · uri) Dependencies.ofRelationships

def referenceKey (uri : String) (p : Position) : String :=
  uri ++ ":" ++ toString p.line.toNat ++ ":" ++ toString p.character.toNat

def findReferences (c : Collaborators) (uri : String) (p : Position) :
    Routine Engine (Except AtlasError (List Location)) := do
  let key := referenceKey uri p
  match (← onCache (Cache.getAs .references key) : Option (List Location)) with
  | some found => return .ok found
  | none =>
    match c.provider.references uri p with
    | .error cause => return .error (.analysisFailed uri cause)
    | .ok locations =>
      store .references key locations (Dependencies.ofLocations locations)
      return .ok locations

/-! ### Layouts -/

/-- The key of a layout: the algorithm, and a digest of the graph, its numbers as
short as can be, and the options. -/
def layoutKey (data : GraphData) (algorithm : String) (u : LayoutOptionsUpdate) : String :=
  algorithm ++ ":" ++ Digest.hex (Digest.ofTexts [(data.toJson ofSingle).compact, (encode u).compact])

def computeLayout (drawn : Random.Generator) (data : GraphData) (algorithm : Option String)
    (u : LayoutOptionsUpdate) : Routine Engine (Except AtlasError LayoutResult) := do
  let usual ← Routine.look Engine.defaultAlgorithm
  let algorithm := algorithm.getD usual
  let key := layoutKey data algorithm u
  match (← onCache (Cache.getAs .layout key) : Option LayoutResult) with
  | some found => return .ok found
  | none =>
    match ← onLayout (LayoutEngine.compute drawn data algorithm u) with
    | .error e => return .error e
    | .ok result =>
      record (Metrics.recordLayout result.elapsedMs)
      store .layout key result []
      return .ok result

/-- Count a layout, if there is one. -/
def countLayout (r : Except AtlasError LayoutResult) : Routine Engine (Except AtlasError LayoutResult) := do
  match r with
  | .error e => return .error e
  | .ok result =>
    record (Metrics.recordLayout result.elapsedMs)
    return .ok result

def computeIncrementalLayout (drawn : Random.Generator) (data : GraphData) (previous : LayoutResult)
    (changed : List String) : Routine Engine (Except AtlasError LayoutResult) := do
  countLayout (← onLayout (LayoutEngine.incremental drawn data previous changed))

def optimizeLayout (drawn : Random.Generator) (r : LayoutResult) (extra : Option Nat) :
    Routine Engine (Except AtlasError LayoutResult) := do
  countLayout (← onLayout (LayoutEngine.optimize drawn r extra))

/-! ### Cache -/

def cacheStats : Routine Engine CacheStats := onCache (Routine.look Cache.stats)

/-- Clear one store, or everything. With the store of query results, or with
everything, the results the search keeps go too. -/
def clearCache (place : Option CacheStore) : Routine Engine Unit := do
  changeCache (Cache.clear place)
  match place with
  | none | some .queryResult => onSearch Search.clearResults
  | _ => return ()

def optimizeCache : Routine Engine Nat := onCache (Routine.atomic Cache.optimize)

def setCacheOptions (u : CacheOptionsUpdate) : Routine Engine (Except AtlasError CacheOptions) :=
  onCache (Routine.atomic (Cache.setOptions u))

/-! ### Metrics -/

def uptime : Routine Engine Nat := Routine.look fun e => e.cache.clock.now - e.started

def performanceMetrics : Routine Engine PerformanceMetrics := do
  let summary ← onIndex (Routine.look Index.summary)
  let cache ← cacheStats
  let cachedQueries ← onSearch (Routine.look fun s => s.results.size)
  let timings ← Routine.look Engine.metrics
  return { fileCount := summary.fileCount, symbolCount := summary.symbolCount
           relationshipCount := summary.relationshipCount, cachedQueries, cache, timings
           uptime := ← uptime }

/-- Announce the metrics of this moment. -/
def refreshMetrics : Routine Engine PerformanceMetrics := do
  let metrics ← performanceMetrics
  announce (.metricsUpdated metrics.toJson)
  return metrics

/-- Announce the metrics every `period` milliseconds from now on. -/
def startMetrics (period : Nat) : Routine Engine Unit := Routine.change fun e =>
  { e with metricsTimer := Timer.start? e.cache.clock.now period }

def healthCheck (c : Collaborators) : Routine Engine HealthStatus := do
  let summary ← onIndex (Routine.look Index.summary)
  let cache ← cacheStats
  let layoutAlgorithms ← Routine.look fun e => e.layout.algorithms
  return { provider := c.provider.name, indexedFiles := summary.fileCount
           symbolCount := summary.symbolCount, cacheEntries := cache.entryCount, layoutAlgorithms
           uptime := ← uptime }

/-- Stop the timers, empty everything, and be done with the provider. -/
def dispose : Routine Engine Unit := do
  Routine.change fun e => { e with metricsTimer := none }
  onSearch Search.clearIndex
  changeCache Cache.dispose
  record fun _ => {}
  Routine.change fun e => { e with isShutDown := true }

/-! ### Time -/

/-- What is due at some moment. -/
inductive Due where
  | cleanup
  | metrics
deriving DecidableEq

/-- What is due up to a moment, in the order of time. -/
def dueUntil (e : Engine) (stop : Nat) : List (Nat × Due) :=
  let moments (timer : Option Timer) (due : Due) : List (Nat × Due) :=
    ((timer.map (·.dueUntil stop)).getD []).map fun m => (m, due)
  (moments e.cache.timer .cleanup ++ moments e.metricsTimer .metrics).mergeSort fun a b => a.1 ≤ b.1

def atMoment (e : Engine) (now : Nat) : Engine := { e with cache := e.cache.atMoment now }

def tick (e : Engine) (due : Nat × Due) : Engine :=
  match due with
  | (moment, .cleanup) => e.withCache (e.cache.sweepAt moment)
  | (moment, .metrics) => (refreshMetrics.run (e.atMoment moment)).2

/-- Let time pass; everything that is due on the way takes place at its moment. -/
def elapse (ms : Nat) (e : Engine) : Engine :=
  let stop := e.cache.clock.now + ms
  let e := ((e.dueUntil stop).foldl tick e).atMoment stop
  { e with cache := { e.cache with timer := e.cache.timer.map (·.after stop) }
           metricsTimer := e.metricsTimer.map (·.after stop) }

end Engine

end CodeAtlas
