import CodeAtlas.Error
import CodeAtlas.Index.Provider
import CodeAtlas.Routine
import CodeAtlas.Signal.Event
import CodeAtlas.Source.Imports
import CodeAtlas.Symbol.NameTable

/-! The index: the symbols and relationships of every analysed file.

A build analyses all files of a scope and replaces the index in one section. An
update analyses some files again and puts them in place in one section; then it
reads which files are indexed, scans all of them for relationships, and replaces
the relationships in another. The provider is asked between sections, so readers
never wait for an analysis. -/
namespace CodeAtlas
open Json

structure FileEntry where
  symbolCount : Nat
deriving DecidableEq, Inhabited, Repr

/-- What the index holds after a build or an update, and what was left out. -/
structure IndexSummary where
  fileCount : Nat := 0
  symbolCount : Nat := 0
  relationshipCount : Nat := 0
  /-- Files whose analysis failed. -/
  failedFiles : Nat := 0
  quarantinedSymbols : Nat := 0
  elapsedMs : Float := 0.0
deriving Inhabited

instance : Wire IndexSummary where
  encode s := .obj
    [("fileCount", encode s.fileCount), ("symbolCount", encode s.symbolCount),
      ("relationshipCount", encode s.relationshipCount), ("failedFiles", encode s.failedFiles),
      ("quarantinedSymbols", encode s.quarantinedSymbols), ("elapsedMs", encode s.elapsedMs)]
  decode? := record? do
    let fileCount ← required "fileCount"
    let symbolCount ← required "symbolCount"
    let relationshipCount ← required "relationshipCount"
    let failedFiles ← required "failedFiles"
    let quarantinedSymbols ← required "quarantinedSymbols"
    let elapsedMs ← required "elapsedMs"
    return { fileCount, symbolCount, relationshipCount, failedFiles, quarantinedSymbols, elapsedMs }

structure Index where
  symbols : KeyMap (List Symbol) := {}
  relationships : KeyMap (List Relationship) := {}
  files : KeyMap FileEntry := {}
  names : NameTable := {}
  lastBuild : Option IndexSummary := none
  /-- How often an analysis was asked for. -/
  requests : Nat := 0
  /-- Announced and not yet delivered, oldest first. -/
  signals : List GraphEvent := []

/-- What an analysis of one file gave. -/
structure FileAnalysis where
  uri : String
  symbols : List Symbol
  quarantined : Nat

namespace Index

/-! ### Reading -/

def isEmpty (ix : Index) : Bool := ix.files.entries.isEmpty

def symbolCount (ix : Index) : Nat := ix.symbols.values.flatten.length

def relationshipCount (ix : Index) : Nat := ix.relationships.values.flatten.length

/-- The symbols of the files in scope, by file and then as they stand in it. -/
def symbolsInScope (ix : Index) (scope : QueryScope) : List Symbol := ix.symbols.collect scope.contains

def relationshipsInScope (ix : Index) (scope : QueryScope) : List Relationship :=
  ix.relationships.collect scope.contains

def fileSymbols (ix : Index) (uri : String) : List Symbol := (ix.symbols.find? uri).getD []

def fileRelationships (ix : Index) (uri : String) : List Relationship :=
  (ix.relationships.find? uri).getD []

def fileEntry? (ix : Index) (uri : String) : Option FileEntry := ix.files.find? uri

/-- The symbols in scope with one of the names, whatever their case, in the order
of `symbolsInScope`. Only the files the name table gives are read. -/
def symbolsNamed (ix : Index) (names : List String) (scope : QueryScope) : List Symbol :=
  let wanted := (names.flatMap ix.names.lookup).filter fun r => scope.contains r.uri
  let add (m : KeyMap (List String)) (r : SymbolRef) := NameTable.addTo m r.uri r.id
  (wanted.foldl add {}).entries.flatMap fun (uri, ids) =>
    (ix.fileSymbols uri).filter fun s => ids.contains s.id

/-- The distinct names of all symbols, in index order. -/
def symbolNames (ix : Index) : List String :=
  let rec go (seen : List String) : List String → List String
    | [] => []
    | n :: rest => if seen.contains n then go seen rest else n :: go (n :: seen) rest
  go [] (ix.symbols.values.flatten.map Symbol.name)

/-- The failures of the last build, with the counts of today. -/
def summary (ix : Index) : IndexSummary :=
  { ix.lastBuild.getD {} with
    fileCount := ix.files.size
    symbolCount := ix.symbolCount
    relationshipCount := ix.relationshipCount }

/-! ### Analysis -/

def analyze (provider : Provider) (uri : String) : Except AtlasError FileAnalysis :=
  match provider.documentSymbols uri with
  | .error cause => .error (.analysisFailed uri cause)
  | .ok raw =>
    let found := ingest uri raw
    .ok { uri, symbols := found.symbols, quarantined := found.quarantined.length }

/-- The analyses that succeed, in order. -/
def analyzeAll (provider : Provider) (uris : List String) : List FileAnalysis :=
  uris.filterMap fun uri => (analyze provider uri).toOption

/-- The relationships of every file; a file without text has none. -/
def scan (provider : Provider) (uris : List String) : KeyMap (List Relationship) :=
  uris.foldl (fun m uri => m.insert uri <|
    match provider.documentText uri with
    | .ok text => Imports.relationships uri text
    | .error _ => []) {}

/-! ### Writing -/

def announce (ix : Index) (events : List GraphEvent) : Index := { ix with signals := ix.signals ++ events }

def countRequests (ix : Index) (n : Nat) : Index := { ix with requests := ix.requests + n }

/-- Put one file in place. -/
def commitFile (ix : Index) (a : FileAnalysis) : Index :=
  { ix with
    names := a.symbols.foldl (fun t s => t.insert s.name s.id a.uri) ix.names
    files := ix.files.insert a.uri { symbolCount := a.symbols.length }
    symbols := ix.symbols.insert a.uri a.symbols }

/-- Take one file out; its relationships stay until they are replaced. -/
def removeFile (ix : Index) (uri : String) : Index :=
  { ix with
    symbols := ix.symbols.erase uri
    files := ix.files.erase uri
    names := ix.names.removeFile uri }

/-- Nothing indexed. -/
def cleared (ix : Index) : Index := { requests := ix.requests, signals := ix.signals }

/-- What is announced after a change. -/
def changes (uris : List String) (s : IndexSummary) : List GraphEvent :=
  [.symbolsChanged uris s.symbolCount, .relationshipsChanged s.relationshipCount,
    .indexUpdated s.symbolCount]

def counted (ix : Index) (failed quarantined : Nat) : IndexSummary :=
  { fileCount := ix.files.size
    symbolCount := ix.symbolCount
    relationshipCount := ix.relationshipCount
    failedFiles := failed
    quarantinedSymbols := quarantined }

def quarantinedIn (analyses : List FileAnalysis) : Nat := analyses.foldl (fun n a => n + a.quarantined) 0

/-- Replace the index by what a build found. -/
def replace (analyses : List FileAnalysis) (relationships : KeyMap (List Relationship))
    (failed : Nat) : StateM Index IndexSummary := fun ix =>
  let filled := { analyses.foldl commitFile ix.cleared with relationships }
  let summary := filled.counted failed (quarantinedIn analyses)
  (summary,
    { filled with lastBuild := some summary }.announce (changes (analyses.map FileAnalysis.uri) summary))

/-- Put the files of an update in place: all its files out, the analysed ones in. -/
def replaceFiles (uris : List String) (analyses : List FileAnalysis) (ix : Index) : Index :=
  analyses.foldl commitFile (uris.foldl removeFile ix)

/-- Put the relationships of an update in place, for the files that are still there. -/
def replaceRelationships (uris : List String) (relationships : KeyMap (List Relationship))
    (failed quarantined : Nat) : StateM Index IndexSummary := fun ix =>
  let settled := { ix with relationships := relationships.filterKeys ix.files.contains }
  let summary := settled.counted failed quarantined
  (summary, settled.announce (changes uris summary))

/-! ### Routines -/

/-- Index every file of a scope anew. Files that cannot be analysed are left out. -/
def build (provider : Provider) (resolver : Resolver) (scope : QueryScope) :
    Routine Index (Except AtlasError IndexSummary) := do
  if resolver.waits then Routine.wait
  match resolver.files scope with
  | .error cause => return .error (.indexBuildFailed scope.describe cause)
  | .ok listed =>
    let uris := listed.filter scope.contains
    let analyses := analyzeAll provider uris
    let relationships := scan provider (analyses.map FileAnalysis.uri)
    Routine.change (countRequests · uris.length)
    let summary ← Routine.atomic (replace analyses relationships (uris.length - analyses.length))
    return .ok summary

/-- Analyse some files again. Those that cannot be analysed drop out. -/
def update (provider : Provider) (uris : List String) : Routine Index IndexSummary := do
  let analyses := analyzeAll provider uris
  Routine.change (countRequests · uris.length)
  Routine.change (replaceFiles uris analyses)
  let indexed ← Routine.look fun ix => ix.files.keys
  let relationships := scan provider indexed
  Routine.atomic
    (replaceRelationships uris relationships (uris.length - analyses.length) (quarantinedIn analyses))

def clear : Routine Index Unit := Routine.change cleared

end Index

end CodeAtlas
