import CodeAtlas.Source.Language
import CodeAtlas.Symbol.Basic
import CodeAtlas.Symbol.Relationship
import CodeAtlas.Text.Pattern

/-! Import statements.

A scan of the text of a file for the statements its language imports with, and not
a resolver: every import becomes a relationship from the file, as a module, to the
path as it is written. -/
namespace CodeAtlas.Imports
open Text Text.Pattern

def space : Pattern := some1 isSpace
def blanks : Pattern := run isSpace

/-- The start of a line and white space, which may go on over further lines. -/
def indent : Pattern := lineStart ++ blanks

def isQuote (c : Char) : Bool := c == '\'' || c == '"'

def identStart (c : Char) : Bool := isAsciiLetter c || c == '_'

def pathChar (c : Char) : Bool := isAsciiAlphanumeric c || c == '_' || c == ':'

def dottedChar (c : Char) : Bool := isWord c || c == '.'

/-- `use a::b`, with or without a visibility. -/
def rustUse : Pattern :=
  indent ++
    optional (exactly "pub" ++ optional (exactly "(" ++ run (· != ')') ++ exactly ")") ++ space) ++
    exactly "use" ++ space ++ capture (one identStart ++ run pathChar)

/-- `from a.b import`. -/
def pythonFrom : Pattern :=
  indent ++ exactly "from" ++ space ++ capture (some1 dottedChar) ++ space ++ exactly "import" ++
    boundary

/-- `import a.b`. -/
def pythonImport : Pattern := indent ++ exactly "import" ++ space ++ capture (some1 dottedChar)

/-- A quoted path between quotes of either sort. -/
def quotedPath : Pattern := one isQuote ++ capture (some1 fun c => !isQuote c) ++ one isQuote

/-- `import x from "a"` and `import "a"`. -/
def scriptImport : Pattern :=
  indent ++ exactly "import" ++ space ++
    optional (lazyRun (fun c => !isQuote c) ++ space ++ exactly "from" ++ space) ++ quotedPath

/-- `require("a")`. -/
def scriptRequire : Pattern :=
  exactly "require(" ++ blanks ++ quotedPath ++ blanks ++ exactly ")"

/-- A path between double quotes. -/
def doubleQuoted : Pattern := exactly "\"" ++ capture (some1 (· != '"')) ++ exactly "\""

/-- `import "a"`, with or without a name for it. -/
def goSingle : Pattern :=
  indent ++ exactly "import" ++ space ++ optional (some1 isWord ++ space) ++ doubleQuoted

/-- `import ( … )`, with the block captured. -/
def goBlock : Pattern :=
  exactly "import" ++ blanks ++ exactly "(" ++ capture (run (· != ')')) ++ exactly ")"

/-- `import a.b.*;`, static or not. -/
def javaImport : Pattern :=
  indent ++ exactly "import" ++ space ++ optional (exactly "static" ++ space) ++
    capture (some1 dottedChar ++ optional (exactly ".*")) ++ blanks ++ exactly ";"

/-- What the patterns captured, in the order of their places in the text. -/
def inOrder (patterns : List Pattern) (text : List Char) : List Span :=
  (patterns.flatMap fun p => p.capturedAll text).mergeSort fun a b =>
    a.start < b.start || (a.start == b.start && !b.chars.lex a.chars (·.toNat < ·.toNat))

/-- The captured paths of a language, as they are found. -/
def found (language : Language) (text : List Char) : List Span :=
  match language with
  | .rust => rustUse.capturedAll text
  | .python => inOrder [pythonFrom, pythonImport] text
  | .typeScript | .javaScript => inOrder [scriptImport, scriptRequire] text
  | .go => goSingle.capturedAll text ++
      (goBlock.capturedAll text).flatMap fun block => doubleQuoted.capturedAll block.chars
  | .java => javaImport.capturedAll text
  | _ => []

/-- Without double colons at the end. -/
def dropColons : List Char → List Char
  | ':' :: ':' :: rest => dropColons rest
  | cs => cs

/-- The path as it counts: without white space around it and colons after it. -/
def tidy (path : List Char) : String :=
  String.ofList (dropColons (trimChars path).reverse).reverse

/-- The imported paths of a text, each once. -/
def scan (language : Language) (text : String) : List String :=
  let paths := (found language text.toList).map fun s => tidy s.chars
  firsts [] (paths.filter (· != ""))
where
  firsts (seen : List String) : List String → List String
    | [] => []
    | p :: rest => if seen.contains p then firsts seen rest else p :: firsts (p :: seen) rest

/-- The id of a whole file as a module. -/
def moduleId (uri : String) : String :=
  Symbol.idOf uri none (Text.afterLast '/' (Uri.path uri)) .file

/-- The import relationships of one file. -/
def relationships (uri text : String) : List Relationship :=
  (scan (Language.ofUri uri) text).map fun target =>
    { sourceId := moduleId uri, targetId := target, kind := .imports
      metadata := { direction := some .forward, labels := ["import"] } }

end CodeAtlas.Imports
