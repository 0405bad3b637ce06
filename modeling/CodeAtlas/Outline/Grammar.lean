import CodeAtlas.Outline.Python
import CodeAtlas.Outline.Rust.Item
import CodeAtlas.Outline.TypeScript.Declaration
import CodeAtlas.Source.Language

/-! Which files have outlines.

The ending of a file's name decides. Scripts and their markup are read alike, as
the larger of the two languages takes in the smaller. -/
namespace CodeAtlas.Outline

inductive Grammar where
  | rust | python | typeScript
  /-- With markup. -/
  | typeScriptMarkup
deriving DecidableEq, Repr

namespace Grammar

def ofUri? (uri : String) : Option Grammar :=
  match Language.ofUri uri with
  | .rust => some rust
  | .python => some python
  | .typeScript => some (if Text.hasEnd (Uri.path uri) ".tsx" then typeScriptMarkup else typeScript)
  | .javaScript => some typeScriptMarkup
  | _ => none

/-- The symbols of a text, each with those inside of it. -/
def outline : Grammar → String → List RawSymbol
  | rust => Rust.outline
  | python => Python.outline
  | typeScript => TypeScript.outline false
  | typeScriptMarkup => TypeScript.outline true

end Grammar

end CodeAtlas.Outline
