import CodeAtlas.Index.Basic
import CodeAtlas.Json.Printer
import CodeAtlas.Query.Phrase
import CodeAtlas.Query.Reach
import CodeAtlas.Query.ResultCache
import CodeAtlas.Query.Suggestion
import CodeAtlas.Query.Validation

/-! Searching the index.

A query is answered from the result cache when it was asked before in the same
scope. Otherwise it is checked, its defaults are filled in, the index is built if
it is empty, and the answer is read from the index and kept. -/
namespace CodeAtlas
open Json

structure Search where
  index : Index := {}
  results : ResultCache
  settings : QuerySettings
  /-- Announced and not yet delivered, oldest first. -/
  signals : List GraphEvent := []

namespace GraphQuery

/-- A query in a scope as one text: two requests share it only if they are the same. -/
def cacheKey (q : GraphQuery) (scope : QueryScope) : String :=
  (encode q).compact ++ "|" ++ (encode scope).compact

/-- The patterns as plain names, when none of them has a star and all are ASCII.
Other patterns are matched by case folding, which the name table does not know. -/
def literalNames? (q : GraphQuery) : Option (List String) :=
  match q.select.symbols with
  | none => none
  | some patterns =>
    let names := (patterns.map Text.trim).filter (· != "")
    let literal := !names.isEmpty && names.all fun n => n.toList.all fun c => c.toNat < 128 && c != '*'
    if literal then some names else none

/-- The symbols whose names match a pattern and which pass the filter. -/
def matching (q : GraphQuery) (symbols : List Symbol) : List Symbol :=
  match q.select.symbols with
  | none => []
  | some patterns =>
    let globs := Query.GlobSet.ofPatterns patterns
    symbols.filter fun s => globs.isMatch s.name && QueryFilter.holds q.filter (·.accepts s)

/-- The relationships of the selected types. -/
def matchingRelationships (q : GraphQuery) (relationships : List Relationship) : List Relationship :=
  match q.select.relationships with
  | none => []
  | some types => relationships.filter fun r => types.contains r.kind

/-- The scope a query runs in: with tests, if the query asks for them. -/
def effectiveScope (q : GraphQuery) (scope : QueryScope) : QueryScope :=
  let asked := (q.filter.bind (·.includeTests)).getD false
  { scope with includeTests := scope.includeTests || asked }

/-- The symbols a query is matched against: those of the names, when names are all
it takes, or else every symbol in scope. -/
def candidates (q : GraphQuery) (ix : Index) (scope : QueryScope) : List Symbol :=
  match q.traverse, q.literalNames? with
  | none, some names => ix.symbolsNamed names scope
  | _, _ => ix.symbolsInScope scope

def page {α : Type} (offset limit : Nat) (items : List α) : List α := (items.drop offset).take limit

/-- The answer, from the candidates and the relationships in scope. -/
def answer (q : GraphQuery) (symbols : List Symbol) (relationships : List Relationship) : QueryResult :=
  let matched := q.matching symbols
  let matchedRelationships := q.matchingRelationships relationships
  match q.traverse with
  | some t =>
    let byId (id : String) : Option Symbol := symbols.reverse.find? (·.id == id)
    let (symbols, relationships) := t.follow matched matchedRelationships relationships byId
    .ofParts symbols relationships
  | none =>
    let offset := (q.offset.map (·.toInt.toNat)).getD 0
    let limit := (q.limit.map (·.toInt.toNat)).getD maxLimit.toNat
    .ofParts (page offset limit matched) (page offset limit matchedRelationships)

end GraphQuery

namespace Search

def ofSettings (settings : QuerySettings) : Search :=
  { settings, results := .ofCapacity settings.resultCacheCapacity }

/-- The index as a part of the search; what it announces is passed on. -/
def onIndex {α : Type} (r : Routine Index α) : Routine Search α :=
  r.within Search.index fun ix s =>
    { s with index := { ix with signals := [] }, signals := s.signals ++ ix.signals }

def executed (r : QueryResult) : GraphEvent := .queryExecuted r.total r.executionTimeMs r.fromCache

def announce (s : Search) (e : GraphEvent) : Search := { s with signals := s.signals ++ [e] }

/-- Look the key up among the results. -/
def recallResult (key : String) : StateM Search (Option QueryResult) := fun s =>
  match s.results.get? key with
  | none => (none, s)
  | some r =>
    let r := { r with fromCache := true, executionTimeMs := 0.0 }
    (some r, s.announce (executed r))

/-- Keep a result. -/
def remember (key : String) (r : QueryResult) (s : Search) : Search :=
  { s with results := s.results.insert key r }.announce (executed r)

/-- Answer a query that may run, from the index as it is. -/
def read (q : GraphQuery) (scope : QueryScope) : Routine Search QueryResult := do
  let scope := q.effectiveScope scope
  let symbols ← onIndex (Routine.look fun ix => q.candidates ix scope)
  let relationships ← onIndex (Routine.look fun ix => ix.relationshipsInScope scope)
  return q.answer symbols relationships

/-- Answer a query. -/
def execute (provider : Provider) (resolver : Resolver) (q : GraphQuery) (scope : QueryScope) :
    Routine Search (Except AtlasError QueryResult) := do
  let key := q.cacheKey scope
  match ← Routine.atomic (recallResult key) with
  | some r => return .ok r
  | none =>
    let violations := q.violations
    if !violations.isEmpty then return .error (.invalidQuery violations)
    let limit ← Routine.look fun s => s.settings.limit
    let normal := q.normalize limit
    if ← onIndex (Routine.look Index.isEmpty) then
      match ← onIndex (Index.build provider resolver scope) with
      | .error e => return .error e
      | .ok _ => pure ()
    let r ← read normal scope
    Routine.change (remember key r)
    return .ok r

/-- Empty the index and the results. -/
def clearIndex : Routine Search Unit := do
  onIndex Index.clear
  Routine.change fun s => { s with results := s.results.clear }

def clearResults : Routine Search Unit :=
  Routine.change fun s => { s with results := s.results.clear }

end Search

end CodeAtlas
