import CodeAtlas.CommandLine.Invocation
import CodeAtlas.Engine.Basic
import CodeAtlas.Files.Workspace

/-! The engine over a workspace of files, and carrying out a command line over one. -/
namespace CodeAtlas

/-- The outlines of the files, and the files of a workspace, for an engine. -/
def FileTree.collaborators (t : FileTree) (drawn : Random.Generator) (root : String) (config : AtlasConfig) :
    Collaborators where
  provider := t.provider config.index.maxFileBytes
  resolver := t.resolver (t.canonicalPath root) []
  drawn

/-- What an engine knows of the files has changed. -/
def Engine.watching (e : Engine) (t : FileTree) : Engine :=
  { e with cache := { e.cache with lastModified := t.lastModified } }

/-- An engine that finds stored values stale when their files have changed. -/
def Engine.ofWorkspace (t : FileTree) (config : AtlasConfig) (clock : Clock) : Engine :=
  (Engine.ofConfig config clock).watching t

namespace CommandLine
open Json

/-- What is printed. -/
inductive Printed where
  | lines (ls : List String)
  | document (j : Json)

def Printed.text : Printed → String
  | .lines ls => String.join (ls.map (· ++ "\n"))
  | .document j => j.pretty ++ "\n"

structure Outcome where
  exitCode : UInt8
  printed : Printed := .lines []
  /-- What went wrong, if anything did. -/
  error : Option AtlasError := none

/-- An error with its cause below it. -/
def errorText (e : AtlasError) : String :=
  match e with
  | .io cause => e.message ++ "\n\nCaused by:\n    " ++ cause
  | e => e.message

def versionLine : String := "Grove v0.1.0"

/-- The counts of an index, and in a second line what had to be left out. -/
def summaryLines (s : IndexSummary) : List String :=
  let counts := "Indexed " ++ toString s.symbolCount ++ " symbols and " ++ toString s.relationshipCount ++
    " relationships across " ++ toString s.fileCount ++ " files in " ++ Decimal.fixedText 1 s.elapsedMs ++ "ms"
  if s.failedFiles == 0 && s.quarantinedSymbols == 0 then [counts]
  else
    [counts, "Skipped " ++ toString s.failedFiles ++ " files and quarantined " ++
      toString s.quarantinedSymbols ++ " symbols"]

/-- A query for names that match any of the patterns in a list. -/
def patternQuery (text : String) : GraphQuery := { select := { symbols := some (Query.patterns text) } }

/-- What an action prints once the index is built. -/
def perform (c : Collaborators) (s : IndexSummary) : Action → ExceptT AtlasError (Routine Engine) Printed
  | .serve _ _ => throw (.io "operation not supported")
  | .index => return .lines (summaryLines s)
  | .query text natural limit => do
    let q := if natural then GraphQuery.ofText text else patternQuery text
    return .document (encode (← ExceptT.mk (Engine.executeQuery c { q with limit := limit.or q.limit } none)))
  | .layout pattern algorithm => do
    let data ← ExceptT.mk (Engine.getGraphData c (some (patternQuery pattern)) none)
    let result ← ExceptT.mk (Engine.computeLayout c.drawn data algorithm {})
    return .document (.obj [("layout", encode result), ("quality", encode result.quality)])
  | .version => return .lines [versionLine]

def runAction (t : FileTree) (clock : Clock) (drawn : Random.Generator) (root : String) (config : AtlasConfig)
    (action : Action) : Except AtlasError Printed :=
  let c := t.collaborators drawn root config
  let routine : ExceptT AtlasError (Routine Engine) Printed := do
    match action with
    | .version => return .lines [versionLine]
    | action => perform c (← ExceptT.mk (Engine.buildIndex c none)) action
  (routine.run.run (Engine.ofWorkspace t config clock)).1

/-- Carry out a command line. The configuration is read before anything is done. -/
def run (t : FileTree) (clock : Clock) (drawn : Random.Generator) (args : List String) : Outcome :=
  match Invocation.parse args with
  | .error .help => { exitCode := 0 }
  | .error .usage => { exitCode := 2 }
  | .ok i =>
    match (t.config i.root).bind fun config => runAction t clock drawn i.root config i.action with
    | .ok printed => { exitCode := 0, printed }
    | .error e => { exitCode := 1, error := some e }

end CommandLine

end CodeAtlas
