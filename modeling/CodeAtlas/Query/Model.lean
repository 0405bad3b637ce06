import CodeAtlas.Query.Glob
import CodeAtlas.Source.Language
import CodeAtlas.Symbol.Basic
import CodeAtlas.Symbol.Relationship

/-! Queries: what to select, how to narrow it down, how far to follow it. -/
namespace CodeAtlas
open Json Query

structure QuerySelect where
  /-- Globs over symbol names. -/
  symbols : Option (List String) := none
  relationships : Option (List RelationshipType) := none
deriving DecidableEq, Inhabited, Repr

/-- Conditions on a symbol, all of which are to hold. An unset one always holds. -/
structure QueryFilter where
  kinds : Option (List SymbolKind) := none
  /-- A glob over the name. -/
  name : Option String := none
  /-- A part of the file's identifier. -/
  path : Option String := none
  isExported : Option Bool := none
  isDeprecated : Option Bool := none
  isStatic : Option Bool := none
  isAbstract : Option Bool := none
  language : Option Language := none
  /-- A glob over the container's name. -/
  container : Option String := none
  /-- Tags that must all be there. -/
  tags : Option (List String) := none
  includeTests : Option Bool := none
deriving DecidableEq, Inhabited, Repr

namespace QueryFilter

def isEmpty (f : QueryFilter) : Bool := f == {}

/-- An unset condition holds. -/
def holds {α : Type} (condition : Option α) (test : α → Bool) : Bool :=
  match condition with
  | none => true
  | some a => test a

def globMatches (pattern name : String) : Bool := (GlobSet.ofPatterns [pattern]).isMatch name

/-- Does the symbol satisfy every condition? A condition on the container refuses
symbols that have none. -/
def accepts (f : QueryFilter) (s : Symbol) : Bool :=
  holds f.kinds (·.contains s.kind) &&
    holds f.name (globMatches · s.name) &&
    holds f.path (Text.contains s.location.uri ·) &&
    holds f.isExported (· == s.metadata.isExported) &&
    holds f.isDeprecated (· == s.metadata.isDeprecated) &&
    holds f.isStatic (· == s.metadata.isStatic) &&
    holds f.isAbstract (· == s.metadata.isAbstract) &&
    holds f.language (· == s.language) &&
    holds f.container (fun p => (s.containerName.map (globMatches p)).getD false) &&
    holds f.tags (·.all fun t => s.metadata.tags.contains t)

end QueryFilter

inductive TraversalDirection where
  | incoming | outgoing | both
deriving DecidableEq, Inhabited, Repr

namespace TraversalDirection

def all : List TraversalDirection := [incoming, outgoing, both]

def name : TraversalDirection → String
  | incoming => "incoming"
  | outgoing => "outgoing"
  | both => "both"

end TraversalDirection

instance : Wire TraversalDirection :=
  ⟨fun d => .str d.name, named? TraversalDirection.all TraversalDirection.name⟩

/-- How far to follow relationships from the matched symbols. -/
structure Traversal where
  depth : Int64
  direction : TraversalDirection := .outgoing
  /-- The types to follow; unset follows all. -/
  relationshipTypes : Option (List RelationshipType) := none
deriving DecidableEq, Repr

structure GraphQuery where
  select : QuerySelect := {}
  filter : Option QueryFilter := none
  traverse : Option Traversal := none
  limit : Option Int64 := none
  offset : Option Int64 := none
deriving DecidableEq, Repr

namespace GraphQuery

/-- Select the symbols whose names match any of the patterns. -/
def ofPatterns (patterns : List String) : GraphQuery := { select := { symbols := some patterns } }

end GraphQuery

instance : Wire QuerySelect where
  encode s := .object [putSome "symbols" s.symbols, putSome "relationships" s.relationships]
  decode? := record? do
    let symbols ← optional "symbols"
    let relationships ← optional "relationships"
    return { symbols, relationships }

instance : Wire QueryFilter where
  encode f := .object
    [putSome "kinds" f.kinds, putSome "name" f.name, putSome "path" f.path,
      putSome "isExported" f.isExported, putSome "isDeprecated" f.isDeprecated,
      putSome "isStatic" f.isStatic, putSome "isAbstract" f.isAbstract,
      putSome "language" f.language, putSome "container" f.container, putSome "tags" f.tags,
      putSome "includeTests" f.includeTests]
  decode? := record? do
    let kinds ← optional "kinds"
    let name ← optional "name"
    let path ← optional "path"
    let isExported ← optional "isExported"
    let isDeprecated ← optional "isDeprecated"
    let isStatic ← optional "isStatic"
    let isAbstract ← optional "isAbstract"
    let language ← optional "language"
    let container ← optional "container"
    let tags ← optional "tags"
    let includeTests ← optional "includeTests"
    return { kinds, name, path, isExported, isDeprecated, isStatic, isAbstract, language, container,
             tags, includeTests }

instance : Wire Traversal where
  encode t := .object
    [put "depth" t.depth, put "direction" t.direction, putSome "relationshipTypes" t.relationshipTypes]
  decode? := record? do
    let depth ← required "depth"
    let direction ← withDefault "direction" TraversalDirection.outgoing
    let relationshipTypes ← optional "relationshipTypes"
    return { depth, direction, relationshipTypes }

instance : Wire GraphQuery where
  encode q := .object
    [put "select" q.select, putSome "where" q.filter, putSome "traverse" q.traverse,
      putSome "limit" q.limit, putSome "offset" q.offset]
  decode? := record? do
    let select ← required "select"
    let filter ← optional "where"
    let traverse ← optional "traverse"
    let limit ← optional "limit"
    let offset ← optional "offset"
    return { select, filter, traverse, limit, offset }

/-- What a query found. -/
structure QueryResult where
  symbols : List Symbol := []
  relationships : List Relationship := []
  /-- The two lengths added up. -/
  total : Nat := 0
  executionTimeMs : Float := 0.0
  fromCache : Bool := false
deriving Inhabited

namespace QueryResult

def ofParts (symbols : List Symbol) (relationships : List Relationship) : QueryResult :=
  { symbols, relationships, total := symbols.length + relationships.length }

/-- The files of the symbols, sorted. -/
def files (r : QueryResult) : List String :=
  (r.symbols.map Symbol.uri).eraseDups.mergeSort fun a b => a ≤ b

end QueryResult

instance : Wire QueryResult where
  encode r := .obj
    [("symbols", encode r.symbols), ("relationships", encode r.relationships),
      ("total", encode r.total), ("executionTimeMs", encode r.executionTimeMs),
      ("fromCache", encode r.fromCache)]
  decode? := record? do
    let symbols ← required "symbols"
    let relationships ← required "relationships"
    let total ← required "total"
    let executionTimeMs ← required "executionTimeMs"
    let fromCache ← withDefault "fromCache" false
    return { symbols, relationships, total, executionTimeMs, fromCache }

end CodeAtlas
