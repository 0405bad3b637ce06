import CodeAtlas.Engine.Basic

/-! Commands: requests to the engine by name, with a list of JSON arguments.

A command is read completely before it is run, so one that is refused changes
nothing. Trailing arguments that are optional may be left out or be null. -/
namespace CodeAtlas
open Json

structure CommandRequest where
  command : String
  args : List Json := []

instance : Wire CommandRequest where
  encode r := .obj [("command", encode r.command), ("args", encode r.args)]
  decode? := record? do
    let command ← required "command"
    let args ← withDefault "args" []
    return { command, args }

inductive Command where
  | executeQuery (query : GraphQuery) (scope : Option QueryScope)
  | executeText (text : String) (scope : Option QueryScope)
  | getGraphData (query : Option GraphQuery) (scope : Option QueryScope)
  | computeLayout (data : GraphData) (algorithm : Option String) (options : LayoutOptionsUpdate)
  | computeIncrementalLayout (data : GraphData) (previous : LayoutResult) (changed : List String)
  | optimizeLayout (layout : LayoutResult) (iterations : Option Nat)
  | analyzeLayoutQuality (layout : LayoutResult)
  | getCache
  | clearCache (store : Option CacheStore)
  | optimizeCache
  | setCacheOptions (options : CacheOptionsUpdate)
  | getPerformanceMetrics
  | healthCheck
  | buildIndex (scope : Option QueryScope)
  | updateIndex (uris : List String)
  | clearIndex
  | getQuerySuggestions (text : String)
  | getSymbolSuggestions (text : String)
  | getFileSymbols (uri : String)
  | getFileRelationships (uri : String)
  | findReferences (uri : String) (position : Position)

namespace CommandRequest

variable {α : Type} [Wire α]

def refuse (r : CommandRequest) (fault : ArgumentFault) : AtlasError := .invalidArguments r.command fault

/-- The argument at a place, unless it is null. -/
def argument? (r : CommandRequest) (i : Nat) : Option Json :=
  match r.args[i]? with
  | some .null => none
  | other => other

def read (r : CommandRequest) (name : String) (j : Json) : Except AtlasError α :=
  match (decode? j : Option α) with
  | some a => .ok a
  | none => .error (r.refuse (.malformed name))

def required (r : CommandRequest) (i : Nat) (name : String) : Except AtlasError α :=
  match r.argument? i with
  | some j => r.read name j
  | none => .error (r.refuse (.missing i name))

def optional (r : CommandRequest) (i : Nat) (name : String) : Except AtlasError (Option α) :=
  match r.argument? i with
  | some j => some <$> r.read name j
  | none => .ok none

/-- The name of a store, as far as one is given. -/
def storeArgument (r : CommandRequest) (i : Nat) : Except AtlasError (Option CacheStore) := do
  match (← r.optional i "store" : Option String) with
  | none => return none
  | some name =>
    match CacheStore.parse name with
    | .ok s => return some s
    | .error reason => .error (r.refuse (.refused reason))

/-- Read the command. -/
def command? (r : CommandRequest) : Except AtlasError Command := do
  match r.command with
  | "executeQuery" => return .executeQuery (← r.required 0 "query") (← r.optional 1 "scope")
  | "executeNaturalLanguageQuery" =>
    return .executeText (← r.required 0 "text") (← r.optional 1 "scope")
  | "getGraphData" => return .getGraphData (← r.optional 0 "query") (← r.optional 1 "scope")
  | "computeLayout" =>
    let data ← r.required 0 "data"
    let algorithm ← r.optional 1 "algorithm"
    let options ← r.optional 2 "options"
    return .computeLayout data algorithm (options.getD {})
  | "computeIncrementalLayout" =>
    return .computeIncrementalLayout (← r.required 0 "data") (← r.required 1 "previous")
      (← r.required 2 "changedNodeIds")
  | "optimizeLayout" => return .optimizeLayout (← r.required 0 "layout") (← r.optional 1 "iterations")
  | "analyzeLayoutQuality" => return .analyzeLayoutQuality (← r.required 0 "layout")
  | "getCache" => return .getCache
  | "clearCache" => return .clearCache (← r.storeArgument 0)
  | "optimizeCache" => return .optimizeCache
  | "setCacheOptions" => return .setCacheOptions (← r.required 0 "options")
  | "getPerformanceMetrics" => return .getPerformanceMetrics
  | "healthCheck" => return .healthCheck
  | "buildIndex" => return .buildIndex (← r.optional 0 "scope")
  | "updateIndex" => return .updateIndex (← r.required 0 "uris")
  | "clearIndex" => return .clearIndex
  | "getQuerySuggestions" => return .getQuerySuggestions (← r.required 0 "partial")
  | "getSymbolSuggestions" => return .getSymbolSuggestions (← r.required 0 "partial")
  | "getFileSymbols" => return .getFileSymbols (← r.required 0 "uri")
  | "getFileRelationships" => return .getFileRelationships (← r.required 0 "uri")
  | "findReferences" => return .findReferences (← r.required 0 "uri") (← r.required 1 "position")
  | name => .error (.unknownCommand name)

end CommandRequest

namespace Command

/-- Run a command; its result is JSON. Options that contradict themselves count as
bad arguments. -/
def run (c : Collaborators) : Command → Routine Engine (Except AtlasError Json)
  | .executeQuery q scope => return (← Engine.executeQuery c q scope).map encode
  | .executeText text scope => return (← Engine.executeText c text scope).map encode
  | .getGraphData q scope => return (← Engine.getGraphData c q scope).map encode
  | .computeLayout data algorithm options =>
    return (← Engine.computeLayout c.drawn data algorithm options).map encode
  | .computeIncrementalLayout data previous changed =>
    return (← Engine.computeIncrementalLayout c.drawn data previous changed).map encode
  | .optimizeLayout layout iterations =>
    return (← Engine.optimizeLayout c.drawn layout iterations).map encode
  | .analyzeLayoutQuality layout => return .ok (encode layout.quality)
  | .getCache => return .ok (encode (← Engine.cacheStats))
  | .clearCache place => do
    Engine.clearCache place
    return .ok (.obj [("cleared", .str ((place.map CacheStore.name).getD "all"))])
  | .optimizeCache => return .ok (.obj [("removed", encode (← Engine.optimizeCache))])
  | .setCacheOptions options => do
    match ← Engine.setCacheOptions options with
    | .ok options => return .ok options.toJson
    | .error e => return .error (.invalidArguments "setCacheOptions" (.refused e.message))
  | .getPerformanceMetrics => return .ok (← Engine.performanceMetrics).toJson
  | .healthCheck => return .ok (← Engine.healthCheck c).toJson
  | .buildIndex scope => return (← Engine.buildIndex c scope).map encode
  | .updateIndex uris => return .ok (encode (← Engine.updateIndex c uris))
  | .clearIndex => do
    Engine.clearIndex
    return .ok (.obj [("cleared", .bool true)])
  | .getQuerySuggestions text => return .ok (encode (← Engine.querySuggestions text))
  | .getSymbolSuggestions text => return .ok (encode (← Engine.symbolSuggestions text))
  | .getFileSymbols uri => return .ok (encode (← Engine.fileSymbols uri))
  | .getFileRelationships uri => return .ok (encode (← Engine.fileRelationships uri))
  | .findReferences uri p => return (← Engine.findReferences c uri p).map encode

end Command

/-- Read and run a command. -/
def dispatch (c : Collaborators) (r : CommandRequest) : Routine Engine (Except AtlasError Json) :=
  match r.command? with
  | .error e => return .error e
  | .ok command => command.run c

end CodeAtlas
