import CodeAtlas.Query.Model

/-! Following relationships from the matched symbols.

The search goes step by step: what was found in one step is where the next begins.
An id counts as visited whether or not it has a symbol, and is followed further;
only ids with symbols are returned. A relationship is returned when it is the one
that led to a new id. -/
namespace CodeAtlas

/-- How far a search has come. -/
structure Reach where
  visited : List String
  symbols : List Symbol
  relationships : List Relationship
  /-- What this step has found so far. -/
  next : List String := []

namespace Reach

/-- Keep the first relationship of each pair of ends. -/
def addRelationship (rs : List Relationship) (r : Relationship) : List Relationship :=
  if rs.any (·.key == r.key) then rs else rs ++ [r]

/-- Where a relationship leads from the frontier. Either way, the target is tried
before the source, and only when it is new. -/
def reached? (direction : TraversalDirection) (frontier visited : List String) (r : Relationship) :
    Option String :=
  match direction with
  | .outgoing => if frontier.contains r.sourceId then some r.targetId else none
  | .incoming => if frontier.contains r.targetId then some r.sourceId else none
  | .both =>
    if frontier.contains r.sourceId && !visited.contains r.targetId then some r.targetId
    else if frontier.contains r.targetId then some r.sourceId
    else none

/-- Try one relationship. -/
def tryOne (direction : TraversalDirection) (frontier : List String) (symbolOf : String → Option Symbol)
    (s : Reach) (r : Relationship) : Reach :=
  match reached? direction frontier s.visited r with
  | none => s
  | some id =>
    if s.visited.contains id then s
    else
      { visited := id :: s.visited
        symbols := s.symbols ++ (symbolOf id).toList
        relationships := addRelationship s.relationships r
        next := id :: s.next }

/-- At most `depth` steps; fewer when a step finds nothing. -/
def steps (direction : TraversalDirection) (candidates : List Relationship)
    (symbolOf : String → Option Symbol) : Nat → List String → Reach → Reach
  | 0, _, s => s
  | depth + 1, frontier, s =>
    let s := candidates.foldl (tryOne direction frontier symbolOf) { s with next := [] }
    if s.next.isEmpty then s else steps direction candidates symbolOf depth s.next s

end Reach

/-- The symbols and relationships within reach of the matched symbols, on top of
these and the matched relationships. -/
def Traversal.follow (t : Traversal) (matched : List Symbol) (matchedRelationships : List Relationship)
    (all : List Relationship) (symbolOf : String → Option Symbol) :
    List Symbol × List Relationship :=
  let candidates := all.filter fun r =>
    match t.relationshipTypes with
    | none => true
    | some types => types.contains r.kind
  let start := matched.map Symbol.id
  let s := Reach.steps t.direction candidates symbolOf t.depth.toInt.toNat start
    { visited := start
      symbols := matched
      relationships := matchedRelationships.foldl Reach.addRelationship [] }
  (s.symbols, s.relationships)

end CodeAtlas
