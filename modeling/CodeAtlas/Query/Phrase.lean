import CodeAtlas.Query.Model
import CodeAtlas.Text.Pattern

/-! Queries in plain words.

A few phrases are understood. A relationship phrase ("calls x") wins over all else;
otherwise a path ("in src/net"), kinds, modifiers and a name clause ("named x") are
gathered. A text without any of them is taken as one name pattern. -/
namespace CodeAtlas.Phrase
open Text Text.Pattern

/-- White space between words. -/
def gap : Pattern := some1 isSpace

/-- A name, with dots and colons in it, whatever its case. -/
def target : Pattern :=
  capture (one (fun c => isAsciiLetter (fold c) || c == '_') ++
    run fun c => isWord c || c == '.' || c == ':')

def calls : Pattern :=
  boundary ++ caseless "call" ++ optional (oneOf [caseless "s", caseless "ing", caseless "ed by"]) ++
    gap ++ target

def «extends» : Pattern :=
  boundary ++ oneOf [caseless "extends", caseless "extend", caseless "inherits from",
    caseless "inherit from", caseless "subclasses of"] ++ gap ++ target

def implements : Pattern :=
  boundary ++ caseless "implement" ++
    optional (oneOf [caseless "s", caseless "ing", caseless "ations of"]) ++ gap ++ target

def named : Pattern :=
  boundary ++ oneOf [caseless "named", caseless "called", caseless "matching"] ++ gap ++
    capture (some1 fun c => !isSpace c)

def pathChar (c : Char) : Bool := isWord c || c == '.' || c == '/' || c == '-'

/-- A path has a slash or a dot in it. -/
def inPath : Pattern :=
  boundary ++ caseless "in" ++ gap ++
    capture (run pathChar ++ one (fun c => c == '/' || c == '.') ++ run pathChar)

/-- The kinds that can be named, each with its pattern. -/
def kindWords : List Pattern :=
  [caseless "function", caseless "method", caseless "class", caseless "interface", caseless "struct",
    caseless "enum", caseless "variable", caseless "constant", caseless "module", caseless "trait",
    caseless "constructor", caseless "propert" ++ oneOf [caseless "y", caseless "ies"],
    caseless "field"]

def kind : Pattern :=
  boundary ++ capture (oneOf kindWords) ++ optional (oneOf [caseless "es", caseless "s"]) ++ boundary

def exported : Pattern := boundary ++ oneOf [caseless "exported", caseless "public"] ++ boundary

def deprecated : Pattern := boundary ++ caseless "deprecated" ++ boundary

/-- The kind a word stands for, in ASCII letters. -/
def kindOf? (word : String) : Option SymbolKind :=
  match asciiLowercase word with
  | "function" => some .function
  | "method" => some .method
  | "class" => some .class
  | "interface" => some .interface
  | "struct" => some .struct
  | "enum" => some .enum
  | "variable" => some .variable
  | "constant" => some .constant
  | "module" => some .module
  | "trait" => some .trait
  | "constructor" => some .constructor
  | "field" => some .field
  | w => if hasStart w "propert" then some .property else none

/-- The symbols one step before the target. -/
def reverseLookup (name : String) (types : List RelationshipType) : GraphQuery :=
  { GraphQuery.ofPatterns [name] with
    traverse := some { depth := 1, direction := .incoming, relationshipTypes := some types } }

/-- The query of a relationship phrase, if there is one. -/
def relationshipQuery? (text : List Char) : Option GraphQuery :=
  match calls.captured? text with
  | some s => some (reverseLookup s.text [.calls])
  | none =>
    match «extends».captured? text with
    | some s => some (reverseLookup s.text [.extends, .inherits])
    | none => (implements.captured? text).map fun s => reverseLookup s.text [.implements]

/-- The text without a stretch of it. -/
def without (text : List Char) : Option Span → List Char
  | none => text
  | some s => text.take s.start ++ text.drop s.stop

def kinds (text : List Char) : List SymbolKind :=
  ((kind.capturedAll text).filterMap fun s => kindOf? s.text).eraseDups

/-- The query of the conditions in a text. -/
def filterQuery (text : List Char) : GraphQuery :=
  let path := inPath.captured? text
  -- Words of the path are no conditions.
  let rest := without text path
  let kinds := kinds rest
  let name := named.captured? rest
  let filter : QueryFilter :=
    { path := path.map Span.text
      kinds := if kinds.isEmpty then none else some kinds
      isExported := if exported.occurs rest then some true else none
      isDeprecated := if deprecated.occurs rest then some true else none }
  match name with
  | some s => { GraphQuery.ofPatterns [s.text] with filter := if filter.isEmpty then none else some filter }
  | none =>
    if filter.isEmpty then GraphQuery.ofPatterns [String.ofList text]
    else { GraphQuery.ofPatterns ["*"] with filter := some filter }

end Phrase

/-- Understand a text as a query. -/
def GraphQuery.ofText (text : String) : GraphQuery :=
  let chars := Text.trimChars text.toList
  match Phrase.relationshipQuery? chars with
  | some q => q
  | none => Phrase.filterQuery chars

end CodeAtlas
