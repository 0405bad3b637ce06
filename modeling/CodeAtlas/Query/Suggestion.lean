import CodeAtlas.Query.Glob

/-! Suggestions for a query that is being typed. -/
namespace CodeAtlas.Suggestion
open Text

def maxQueries : Nat := 10

def maxSymbols : Nat := 100

def templates : List String :=
  ["all functions", "all classes", "all methods", "all interfaces", "all structs", "all traits",
    "all modules", "exported functions", "exported classes", "deprecated symbols"]

/-- The items in order, each once. -/
def distinct (xs : List String) : List String := xs.foldl (fun out x => if out.contains x then out else out ++ [x]) []

/-- The names that begin with the text, up to the end of a word. -/
def symbols (text : String) (names : List String) : List String :=
  let globs := Query.GlobSet.ofPatterns [trim text ++ "*"]
  (distinct (names.filter globs.isMatch)).take maxSymbols

/-- The templates that contain the text, then relationship phrases for the symbols
whose names begin with its last word. -/
def queries (text : String) (names : List String) : List String :=
  let lower := lowercase (trim text)
  let fitting := templates.filter fun t => lower.isEmpty || contains t lower
  let word := afterLast ' ' lower
  let phrases :=
    if word.isEmpty then []
    else (symbols word names).flatMap fun name => ["calls " ++ name, "extends " ++ name, name]
  (distinct (fitting ++ phrases)).take maxQueries

end CodeAtlas.Suggestion
