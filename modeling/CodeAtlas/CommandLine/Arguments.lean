import CodeAtlas.Text.Chars

/-! Arguments of a command: options in their long and short forms, and words.

A long option has its value after an equals sign or in the next argument. Short
options may stand together behind one dash, and the last of them may have a value.
An argument that looks like an option is never a value. No option may be given
twice. After two dashes nothing is an option. -/
namespace CodeAtlas.CommandLine

structure OptionSpec where
  long : String
  short : Option Char := none
  takesValue : Bool := false
  /-- Which values may be given. -/
  accepts : String → Bool := fun _ => true

/-- Why arguments lead to no action. -/
inductive Refusal where
  /-- They ask for an explanation instead. -/
  | help
  | usage
deriving DecidableEq, Repr

structure Arguments where
  /-- Options by their long names, newest first. -/
  options : List (String × Option String) := []
  words : List String := []
deriving Repr

namespace Arguments

def has (a : Arguments) (name : String) : Bool := a.options.any (·.1 == name)

def value? (a : Arguments) (name : String) : Option String := (a.options.lookup name).join

/-- Add an option with its value, or without one if it takes none. -/
def give (a : Arguments) (spec : OptionSpec) (value : Option String) : Except Refusal Arguments :=
  let isFit := match value with
    | some v => spec.takesValue && spec.accepts v
    | none => !spec.takesValue
  if isFit && !a.has spec.long then .ok { a with options := (spec.long, value) :: a.options }
  else .error .usage

end Arguments

/-- Anything behind a dash; a dash alone is a word. -/
def looksLikeOption (arg : String) : Bool := Text.hasStart arg "-" && arg != "-"

/-- The value of an option in the next argument. -/
def nextValue? : List String → Option String
  | v :: _ => if looksLikeOption v then none else some v
  | [] => none

/-- Read a long option without its dashes, and tell whether it took the next
argument as its value. -/
def readLong (specs : List OptionSpec) (a : Arguments) (option : List Char) (next : List String) :
    Except Refusal (Arguments × Bool) := do
  let name := String.ofList (option.takeWhile (· != '='))
  let attached := match option.dropWhile (· != '=') with
    | _ :: value => some (String.ofList value)
    | [] => none
  if name == "help" then throw (if attached.isSome then .usage else .help)
  let some spec := specs.find? (·.long == name) | throw .usage
  if spec.takesValue && attached.isNone then
    return (← a.give spec (nextValue? next), true)
  else return (← a.give spec attached, false)

/-- Read short options behind one dash, and tell whether the last one took the next
argument as its value. -/
def readShort (specs : List OptionSpec) (a : Arguments) (next : List String) :
    List Char → Except Refusal (Arguments × Bool)
  | [] => return (a, false)
  | c :: rest => do
    if c == 'h' then throw .help
    let some spec := specs.find? (·.short == some c) | throw .usage
    if !spec.takesValue then readShort specs (← a.give spec none) next rest
    else
      match rest with
      | [] => return (← a.give spec (nextValue? next), true)
      | '=' :: value => return (← a.give spec (some (String.ofList value)), false)
      | value => return (← a.give spec (some (String.ofList value)), false)

/-- Add words, of which there may be only so many. -/
def Arguments.addWords (a : Arguments) (limit : Nat) (words : List String) : Except Refusal Arguments :=
  if a.words.length + words.length ≤ limit then .ok { a with words := a.words ++ words }
  else .error .usage

/-- Read options up to the first word, and leave the rest. -/
def readOptions (specs : List OptionSpec) (a : Arguments) : List String →
    Except Refusal (Arguments × List String)
  | [] => .ok (a, [])
  | arg :: rest =>
    if !looksLikeOption arg || arg == "--" then .ok (a, arg :: rest)
    else
      let read := match Text.afterStart? arg "--" with
        | some option => readLong specs a option.toList rest
        | none => readShort specs a rest (arg.toList.drop 1)
      match read with
      | .error e => .error e
      | .ok (a, false) => readOptions specs a rest
      | .ok (a, true) =>
        match rest with
        | [] => .error .usage
        | _ :: rest => readOptions specs a rest

/-- Read options and up to `limit` words in any order; `fuel` bounds the number of
arguments. -/
def readAll (specs : List OptionSpec) (limit : Nat) : Nat → Arguments → List String → Except Refusal Arguments
  | 0, a, _ => .ok a
  | fuel + 1, a, args => do
    let (a, rest) ← readOptions specs a args
    match rest with
    | [] => return a
    | word :: rest =>
      if word == "--" then a.addWords limit rest
      else readAll specs limit fuel (← a.addWords limit [word]) rest

/-- A whole number in decimal, perhaps with a sign. -/
def integer? (text : String) : Option Int :=
  let digits? (cs : List Char) : Option Nat :=
    if cs.isEmpty || !cs.all Text.isAsciiDigit then none
    else some (cs.foldl (fun n c => 10 * n + (c.toNat - 48)) 0)
  match text.toList with
  | '-' :: rest => (digits? rest).map fun n => -(n : Int)
  | '+' :: rest => (digits? rest).map fun n => (n : Int)
  | cs => (digits? cs).map fun n => (n : Int)

end CodeAtlas.CommandLine
