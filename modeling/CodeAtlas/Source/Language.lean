import CodeAtlas.Json.Wire
import CodeAtlas.Text.Chars

/-! Source languages, and the identifiers of files.

A file is identified by a URI. The language of a file is read off the ending of
its name, exactly as written. -/
namespace CodeAtlas
open Json

inductive Language where
  | rust | typeScript | javaScript | python | go | java | c | cpp | cSharp | other
deriving DecidableEq, Inhabited, Repr

namespace Language

def all : List Language :=
  [rust, typeScript, javaScript, python, go, java, c, cpp, cSharp, other]

def name : Language → String
  | rust => "rust"
  | typeScript => "typescript"
  | javaScript => "javascript"
  | python => "python"
  | go => "go"
  | java => "java"
  | c => "c"
  | cpp => "cpp"
  | cSharp => "csharp"
  | other => "other"

/-- The language of files whose name ends in this extension. -/
def ofExtension : String → Language
  | "rs" => rust
  | "ts" | "tsx" | "mts" | "cts" => typeScript
  | "js" | "jsx" | "mjs" | "cjs" => javaScript
  | "py" | "pyi" => python
  | "go" => go
  | "java" => java
  | "c" | "h" => c
  | "cpp" | "cc" | "cxx" | "hpp" | "hh" => cpp
  | "cs" => cSharp
  | _ => other

/-- Read a name or one of its short forms, whatever its ASCII case. -/
def parse (text : String) : Except String Language :=
  let lower := Text.asciiLowercase (Text.trim text)
  match lower with
  | "rust" | "rs" => .ok rust
  | "typescript" | "ts" | "tsx" => .ok typeScript
  | "javascript" | "js" | "jsx" => .ok javaScript
  | "python" | "py" => .ok python
  | "go" | "golang" => .ok go
  | "java" => .ok java
  | "c" => .ok c
  | "cpp" | "c++" => .ok cpp
  | "csharp" | "c#" | "cs" => .ok cSharp
  | "other" => .ok other
  | _ => .error ("unknown language '" ++ lower ++ "'")

end Language

instance : Wire Language := ⟨fun l => .str l.name, named? Language.all Language.name⟩

namespace Path

/-- The last component of a path. Empty components and single dots are passed over;
a path that ends in two dots, or that is one dot, names no file. -/
def fileName? (path : String) : Option String :=
  let parts := Text.split '/' path
  let kept := parts.filter fun p => p != "" && p != "."
  match kept.getLast? with
  | none => none
  | some name => if name == ".." then none else some name

/-- What follows the last dot of the file name, unless that dot is its first
character. -/
def extension? (path : String) : Option String := do
  let name ← fileName? path
  let cs := name.toList
  let after := (cs.reverse.takeWhile (· != '.')).reverse
  if after.length + 1 < cs.length then some (String.ofList after) else none

end Path

namespace Uri

/-- The path a file identifier stands for. -/
def path (uri : String) : String := (Text.afterStart? uri "file://").getD uri

end Uri

/-- The language of the file at a path. -/
def Language.ofPath (path : String) : Language :=
  match Path.extension? path with
  | some e => ofExtension e
  | none => other

def Language.ofUri (uri : String) : Language := ofPath (Uri.path uri)

end CodeAtlas
