import CodeAtlas.Source.Language
import CodeAtlas.Source.Range
import CodeAtlas.Symbol.Kind

/-! Symbols: the named entities of source code.

The id of a symbol is made of its file, its container, its name and its kind, so
that symbols of one name in two files stay apart. -/
namespace CodeAtlas
open Json

/-- Who can see a symbol. -/
inductive Visibility where
  | «public» | «protected» | internal | «private»
deriving DecidableEq, Inhabited, Repr

namespace Visibility

def all : List Visibility := [«public», «protected», internal, «private»]

def name : Visibility → String
  | «public» => "public"
  | «protected» => "protected"
  | internal => "internal"
  | «private» => "private"

end Visibility

instance : Wire Visibility := ⟨fun v => .str v.name, named? Visibility.all Visibility.name⟩

structure SymbolMetadata where
  isExported : Bool := false
  isDeprecated : Bool := false
  isStatic : Bool := false
  isAbstract : Bool := false
  tags : List String := []
  documentation : Option String := none
  typeInfo : Option String := none
  visibility : Option Visibility := none
deriving DecidableEq, Inhabited, Repr

instance : Wire SymbolMetadata where
  encode m := .object
    [put "isExported" m.isExported, put "isDeprecated" m.isDeprecated, put "isStatic" m.isStatic,
      put "isAbstract" m.isAbstract, put "tags" m.tags, putSome "documentation" m.documentation,
      putSome "typeInfo" m.typeInfo, putSome "visibility" m.visibility]
  decode? := record? do
    let isExported ← required "isExported"
    let isDeprecated ← required "isDeprecated"
    let isStatic ← required "isStatic"
    let isAbstract ← required "isAbstract"
    let tags ← withDefault "tags" []
    let documentation ← optional "documentation"
    let typeInfo ← optional "typeInfo"
    let visibility ← optional "visibility"
    return { isExported, isDeprecated, isStatic, isAbstract, tags, documentation, typeInfo, visibility }

structure Symbol where
  id : String
  name : String
  kind : SymbolKind
  location : Location
  containerName : Option String
  language : Language
  metadata : SymbolMetadata
deriving DecidableEq, Inhabited, Repr

namespace Symbol

/-- File, container, name and kind, with colons between; no container is written
as an empty one. -/
def idOf (uri : String) (container : Option String) (name : String) (kind : SymbolKind) : String :=
  uri ++ ":" ++ container.getD "" ++ ":" ++ name ++ ":" ++ kind.name

/-- A symbol with the id and the language that follow from where it is. -/
def ofParts (name : String) (kind : SymbolKind) (location : Location)
    (containerName : Option String) : Symbol :=
  { id := idOf location.uri containerName name kind
    name, kind, location, containerName
    language := Language.ofUri location.uri
    metadata := {} }

def uri (s : Symbol) : String := s.location.uri

/-- The lowercase terms a symbol is found by: its name, its container, its kind. -/
def searchTerms (s : Symbol) : List String :=
  let terms := [Text.lowercase s.name] ++ (s.containerName.map Text.lowercase).toList ++
    [Text.lowercase s.kind.name]
  terms.eraseDups.mergeSort fun a b => a ≤ b

end Symbol

instance : Wire Symbol where
  encode s := .object
    [put "id" s.id, put "name" s.name, put "kind" s.kind, put "location" s.location,
      putSome "containerName" s.containerName, put "language" s.language, put "metadata" s.metadata]
  decode? := record? do
    let id ← required "id"
    let name ← required "name"
    let kind ← required "kind"
    let location ← required "location"
    let containerName ← optional "containerName"
    let language ← required "language"
    let metadata ← withDefault "metadata" {}
    return { id, name, kind, location, containerName, language, metadata }

end CodeAtlas
