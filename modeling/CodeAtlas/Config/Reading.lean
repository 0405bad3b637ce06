import CodeAtlas.Config.Basic
import CodeAtlas.Toml.Document

/-! Reading a configuration, and what is derived from it for logging. -/
namespace CodeAtlas

/-- Read a configuration from TOML. -/
def AtlasConfig.ofText (text : String) : Except AtlasError AtlasConfig :=
  match ((Toml.parse? text).bind decode? : Option AtlasConfig) with
  | none => .error (.invalidConfig .unreadable)
  | some config =>
    match config.fault? with
    | some reason => .error (.badConfig reason)
    | none => .ok config

namespace LoggingSettings

/-- The modules that the verbose mode tells everything about. -/
def verboseTargets : List String :=
  ["grove", "grove_core", "grove_index", "grove_cache", "grove_layout", "grove_server"]

/-- The directive of a run, verbose or not. -/
def runDirective (s : LoggingSettings) (verbose : Bool) : String :=
  let raised := if verbose then verboseTargets.map fun target => "," ++ target ++ "=debug" else []
  s.directive ++ String.join raised

end LoggingSettings

end CodeAtlas
