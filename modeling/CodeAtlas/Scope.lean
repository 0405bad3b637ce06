import CodeAtlas.Source.Language

/-! Scopes: which files take part in an index or a query.

A file is in scope when its identifier contains one of the paths, its language is
one of the languages, and it is no test file unless tests are included. An empty
list of paths or languages keeps every file. -/
namespace CodeAtlas
open Json

/-- A file is taken for a test when "test" occurs in its identifier, whatever the
ASCII case. -/
def isTestFile (uri : String) : Bool := Text.contains (Text.asciiLowercase uri) "test"

structure QueryScope where
  paths : List String := []
  languages : List Language := []
  includeTests : Bool := false
deriving DecidableEq, Inhabited, Repr

namespace QueryScope

/-- Every file but the tests. -/
def workspace : QueryScope := {}

def contains (s : QueryScope) (uri : String) : Bool :=
  (s.paths.isEmpty || s.paths.any fun p => Text.contains uri p) &&
    (s.languages.isEmpty || s.languages.contains (Language.ofUri uri)) &&
    (s.includeTests || !isTestFile uri)

private def listOrStar (xs : List String) : String :=
  if xs.isEmpty then "*" else Text.join "," xs

/-- The scope in one line, for messages. -/
def describe (s : QueryScope) : String :=
  "paths=" ++ listOrStar s.paths ++ " languages=" ++ listOrStar (s.languages.map Language.name) ++
    " tests=" ++ toString s.includeTests

end QueryScope

instance : Wire QueryScope where
  encode s := .obj
    [("paths", encode s.paths), ("languages", encode s.languages),
      ("includeTests", encode s.includeTests)]
  decode? := record? do
    let paths ← withDefault "paths" []
    let languages ← withDefault "languages" []
    let includeTests ← withDefault "includeTests" false
    return { paths, languages, includeTests }

end CodeAtlas
