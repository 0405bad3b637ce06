import CodeAtlas.Json.Value
import CodeAtlas.Text.Chars

/-! What can go wrong, and how it is told.

An error is a cause. Its code is stable and meant for programs, its message for
people, its details for logs. -/
namespace CodeAtlas

/-- Why an argument of a command is refused. -/
inductive ArgumentFault where
  | missing (position : Nat) (name : String)
  | malformed (name : String)
  | refused (reason : String)
deriving DecidableEq, Repr

/-- Why a configuration is refused. -/
inductive ConfigFault where
  /-- The text is no configuration at all. -/
  | unreadable
  | refused (reason : String)
deriving DecidableEq, Repr

inductive AtlasError where
  | invalidQuery (violations : List String)
  | indexBuildFailed (scope cause : String)
  | queryExecutionFailed (cause : String)
  | layoutFailed (algorithm cause : String)
  | unknownAlgorithm (name : String)
  | analysisFailed (uri cause : String)
  | malformedSymbol (uri reason : String)
  | invalidConfig (fault : ConfigFault)
  | unknownCommand (name : String)
  | invalidArguments (command : String) (fault : ArgumentFault)
  | superseded (operation : String)
  | io (cause : String)
deriving DecidableEq, Repr

/-- The cause of a refused argument. -/
def ArgumentFault.text : ArgumentFault → String
  | .missing position name => s!"missing argument {position} ({name})"
  | .malformed name => name
  | .refused reason => reason

/-- What is told about the cause beside the name of the argument. -/
def ArgumentFault.detail : ArgumentFault → String
  | .malformed _ => ""
  | fault => fault.text

def ConfigFault.text : ConfigFault → String
  | .unreadable => "the text is not a configuration"
  | .refused reason => reason

namespace AtlasError

/-- A configuration refused for a reason. -/
def badConfig (reason : String) : AtlasError := .invalidConfig (.refused reason)

def code : AtlasError → String
  | invalidQuery _ => "INVALID_QUERY"
  | indexBuildFailed _ _ => "INDEX_BUILD_FAILED"
  | queryExecutionFailed _ => "QUERY_EXECUTION_FAILED"
  | layoutFailed _ _ => "LAYOUT_COMPUTATION_FAILED"
  | unknownAlgorithm _ => "UNKNOWN_ALGORITHM"
  | analysisFailed _ _ => "ANALYSIS_FAILED"
  | malformedSymbol _ _ => "MALFORMED_SYMBOL"
  | invalidConfig _ => "INVALID_CONFIG"
  | unknownCommand _ => "UNKNOWN_COMMAND"
  | invalidArguments _ _ => "INVALID_ARGUMENTS"
  | superseded _ => "REQUEST_SUPERSEDED"
  | io _ => "IO_FAILED"

def message : AtlasError → String
  | invalidQuery violations => "Invalid query: " ++ Text.join "; " violations
  | indexBuildFailed scope cause => "Index build failed for scope " ++ scope ++ ": " ++ cause
  | queryExecutionFailed cause => "Query execution failed: " ++ cause
  | layoutFailed algorithm cause => "Layout computation failed for " ++ algorithm ++ ": " ++ cause
  | unknownAlgorithm name => "Unknown layout algorithm: " ++ name
  | analysisFailed uri cause => "Analysis failed for " ++ uri ++ ": " ++ cause
  | malformedSymbol uri reason => "Malformed symbol in " ++ uri ++ ": " ++ reason
  | invalidConfig fault => "Invalid configuration: " ++ fault.text
  | unknownCommand name => "Unknown command: " ++ name
  | invalidArguments command fault => "Invalid arguments for " ++ command ++ ": " ++ fault.text
  | superseded operation => "Request superseded: " ++ operation
  | io cause => "IO error: " ++ cause

/-- What a log keeps: the operation, and the parts of the cause by name. -/
def details (e : AtlasError) : Json :=
  let texts (operation : String) (fields : List (String × String)) : Json :=
    .obj (("operation", .str operation) :: fields.map fun (k, v) => (k, .str v))
  match e with
  | invalidQuery violations =>
    .obj [("operation", .str "executeQuery"), ("violations", .strings violations)]
  | indexBuildFailed scope cause => texts "buildIndex" [("scope", scope), ("cause", cause)]
  | queryExecutionFailed cause => texts "executeQuery" [("cause", cause)]
  | layoutFailed algorithm cause => texts "computeLayout" [("algorithm", algorithm), ("cause", cause)]
  | unknownAlgorithm name => texts "computeLayout" [("algorithm", name)]
  | analysisFailed uri cause => texts "analyzeFile" [("uri", uri), ("cause", cause)]
  | malformedSymbol uri reason => texts "ingestSymbols" [("uri", uri), ("cause", reason)]
  | invalidConfig fault => texts "loadConfig" [("cause", fault.text)]
  | unknownCommand name => texts "dispatch" [("command", name)]
  | invalidArguments command fault => texts "dispatch" [("command", command), ("cause", fault.detail)]
  | superseded operation => texts operation []
  | io cause => texts "io" [("cause", cause)]

/-- Errors the caller can mend, as against faults of the service. -/
def isClientError : AtlasError → Bool
  | invalidQuery _ | unknownAlgorithm _ | unknownCommand _ | invalidArguments _ _ | superseded _ => true
  | _ => false

end AtlasError

end CodeAtlas
