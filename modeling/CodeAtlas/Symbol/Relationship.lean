import CodeAtlas.Json.Wire
import CodeAtlas.Text.Chars

/-! Relationships: typed, directed links between symbol ids. -/
namespace CodeAtlas
open Json

inductive RelationshipType where
  | calls | extends | implements | imports | references | defines | uses | inherits | contains
deriving DecidableEq, Inhabited, Repr

namespace RelationshipType

def all : List RelationshipType :=
  [calls, «extends», implements, imports, references, defines, uses, inherits, contains]

def name : RelationshipType → String
  | calls => "calls"
  | «extends» => "extends"
  | implements => "implements"
  | imports => "imports"
  | references => "references"
  | defines => "defines"
  | uses => "uses"
  | inherits => "inherits"
  | contains => "contains"

/-- Read a name, whatever its ASCII case. -/
def parse (text : String) : Except String RelationshipType :=
  let lower := Text.asciiLowercase (Text.trim text)
  match all.find? fun t => t.name == lower with
  | some t => .ok t
  | none => .error ("unknown relationship type '" ++ lower ++ "'")

end RelationshipType

inductive Cardinality where
  | oneToOne | oneToMany | manyToOne | manyToMany
deriving DecidableEq, Inhabited, Repr

namespace Cardinality

def all : List Cardinality := [oneToOne, oneToMany, manyToOne, manyToMany]

def name : Cardinality → String
  | oneToOne => "oneToOne"
  | oneToMany => "oneToMany"
  | manyToOne => "manyToOne"
  | manyToMany => "manyToMany"

end Cardinality

inductive EdgeDirection where
  | forward | backward | bidirectional
deriving DecidableEq, Inhabited, Repr

namespace EdgeDirection

def all : List EdgeDirection := [forward, backward, bidirectional]

def name : EdgeDirection → String
  | forward => "forward"
  | backward => "backward"
  | bidirectional => "bidirectional"

end EdgeDirection

instance : Wire RelationshipType :=
  ⟨fun t => .str t.name, named? RelationshipType.all RelationshipType.name⟩

instance : Wire Cardinality := ⟨fun c => .str c.name, named? Cardinality.all Cardinality.name⟩

instance : Wire EdgeDirection := ⟨fun d => .str d.name, named? EdgeDirection.all EdgeDirection.name⟩

structure RelationshipMetadata where
  /-- From zero to one, in single precision. -/
  strength : Option Float32 := none
  cardinality : Option Cardinality := none
  direction : Option EdgeDirection := none
  labels : List String := []
deriving Inhabited

structure Relationship where
  sourceId : String
  targetId : String
  kind : RelationshipType
  metadata : RelationshipMetadata := {}
deriving Inhabited

/-- The ends of a relationship in one text, source first. -/
def Relationship.key (r : Relationship) : String := r.sourceId ++ "-" ++ r.targetId

/-- Metadata as JSON, given how a strength is written. -/
def RelationshipMetadata.toJson (strength : Float32 → Json) (m : RelationshipMetadata) : Json :=
  .object
    [putSome "strength" (m.strength.map strength), putSome "cardinality" m.cardinality,
      putSome "direction" m.direction, put "labels" m.labels]

instance : Wire RelationshipMetadata where
  encode := RelationshipMetadata.toJson encode
  decode? := record? do
    let strength ← optional "strength"
    let cardinality ← optional "cardinality"
    let direction ← optional "direction"
    let labels ← withDefault "labels" []
    return { strength, cardinality, direction, labels }

/-- A relationship as JSON, given how its strength is written. -/
def Relationship.toJson (strength : Float32 → Json) (r : Relationship) : Json :=
  .obj
    [("sourceId", encode r.sourceId), ("targetId", encode r.targetId), ("type", encode r.kind),
      ("metadata", r.metadata.toJson strength)]

instance : Wire Relationship where
  encode := Relationship.toJson encode
  decode? := record? do
    let sourceId ← required "sourceId"
    let targetId ← required "targetId"
    let kind ← required "type"
    let metadata ← withDefault "metadata" {}
    return { sourceId, targetId, kind, metadata }

end CodeAtlas
