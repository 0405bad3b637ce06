import CodeAtlas.Scope
import CodeAtlas.Symbol.Raw

/-! Whom the index asks: an analysis of files, and a resolver of scopes.

Both are given by their answers. An error is a sentence about what failed. -/
namespace CodeAtlas

/-- An analysis of source files. -/
structure Provider where
  name : String
  documentSymbols : String → Except String (List RawSymbol)
  documentText : String → Except String String
  references : String → Position → Except String (List Location)
  definition : String → Position → Except String (List Location)
  implementations : String → Position → Except String (List Location)
  typeDefinition : String → Position → Except String (List Location)
  /-- The identifier at a position. -/
  wordAt : String → Position → Except String (Option String)

/-- Lists the files of a scope. -/
structure Resolver where
  files : QueryScope → Except String (List String)
  /-- Does it wait for something before it answers? -/
  waits : Bool := false

/-- A resolver that knows no files. -/
def Resolver.empty : Resolver := { files := fun _ => .ok [] }

end CodeAtlas
