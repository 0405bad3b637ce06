import CodeAtlas.CommandLine.Arguments

/-! What a command line asks for. -/
namespace CodeAtlas.CommandLine

inductive Action where
  /-- Answer requests; what is not given comes from the configuration. -/
  | serve (host : Option String) (port : Option UInt16)
  | index
  | query (text : String) (natural : Bool) (limit : Option Int64)
  | layout (pattern : String) (algorithm : Option String)
  | version
deriving Repr

structure Invocation where
  /-- The directory of the workspace. -/
  root : String := "."
  verbose : Bool := false
  action : Action
deriving Repr

def isBetween (low high : Int) (text : String) : Bool :=
  match integer? text with
  | some n => low ≤ n && n ≤ high
  | none => false

def generalOptions : List OptionSpec :=
  [{ long := "verbose", short := some 'v' },
    { long := "root", short := some 'r', takesValue := true, accepts := fun v => !v.isEmpty }]

def serveOptions : List OptionSpec :=
  [{ long := "port", short := some 'p', takesValue := true, accepts := isBetween 0 65535 },
    { long := "host", takesValue := true }]

def queryOptions : List OptionSpec :=
  [{ long := "natural", short := some 'n' },
    { long := "limit", short := some 'l', takesValue := true
      accepts := isBetween Int64.minValue.toInt Int64.maxValue.toInt }]

def layoutOptions : List OptionSpec := [{ long := "algorithm", short := some 'a', takesValue := true }]

/-- Read the arguments of a command with exactly so many words. -/
def readCommand (specs : List OptionSpec) (words : Nat) (args : List String) : Except Refusal Arguments := do
  let a ← readAll specs words (args.length + 1) {} args
  if a.words.length == words then return a else throw .usage

def number? (a : Arguments) (name : String) : Option Int := (a.value? name).bind integer?

/-- The commands by name. -/
def commandNames : List String := ["serve", "index", "query", "layout", "version", "help"]

def readAction (name : String) (args : List String) : Except Refusal Action := do
  match name with
  | "serve" =>
    let a ← readCommand serveOptions 0 args
    return .serve (a.value? "host") ((number? a "port").map fun n => n.toNat.toUInt16)
  | "index" =>
    let _ ← readCommand [] 0 args
    return .index
  | "query" =>
    let a ← readCommand queryOptions 1 args
    return .query (a.words.headD "") (a.has "natural") ((number? a "limit").map Int64.ofInt)
  | "layout" =>
    let a ← readCommand layoutOptions 1 args
    return .layout (a.words.headD "") (a.value? "algorithm")
  | "version" =>
    let _ ← readCommand [] 0 args
    return .version
  | "help" =>
    match args with
    | [] => throw .help
    | [topic] => throw (if commandNames.contains topic then .help else .usage)
    | _ => throw .usage
  | _ => throw .usage

def Invocation.parse (args : List String) : Except Refusal Invocation := do
  let (a, rest) ← readOptions generalOptions {} args
  match rest with
  | [] => throw .usage
  | name :: args =>
    return { root := (a.value? "root").getD ".", verbose := a.has "verbose", action := ← readAction name args }

end CodeAtlas.CommandLine
