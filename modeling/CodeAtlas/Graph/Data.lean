import CodeAtlas.Symbol.Basic
import CodeAtlas.Symbol.Relationship

/-! Graph data: nodes and edges ready to be laid out.

Every symbol becomes one node and every relationship between two of them an edge.
A node has a position, a velocity for simulations, and may be pinned to a place. -/
namespace CodeAtlas
open Json

structure GraphNode where
  id : String
  symbol : Symbol
  x : Float := 0.0
  y : Float := 0.0
  vx : Float := 0.0
  vy : Float := 0.0
  /-- Where the node is pinned; it takes both coordinates to pin it. -/
  fx : Option Float := none
  fy : Option Float := none
  size : Float
  color : String
  group : String
  /-- Has a layout, or the caller, given it a position? -/
  positioned : Bool := false
deriving Inhabited

def SymbolKind.color : SymbolKind → String
  | .class | .struct => "#4f8cc9"
  | .interface | .trait => "#8e6cc9"
  | .function | .method | .constructor => "#52a66b"
  | .module | .namespace | .package | .file => "#c9a04f"
  | .enum | .enumMember => "#c96c4f"
  | _ => "#8a8a8a"

namespace GraphNode

/-- The node of a symbol, not yet placed. Nodes of one container form a group;
without a container the file does. -/
def ofSymbol (s : Symbol) : GraphNode :=
  { id := s.id, symbol := s
    size := if s.kind.isContainer then 14.0 else 8.0
    color := s.kind.color
    group := s.containerName.getD s.location.uri }

def isPinned (n : GraphNode) : Bool := n.fx.isSome && n.fy.isSome

/-- A node at the origin that was never placed has no position. -/
def hasPosition (n : GraphNode) : Bool := n.positioned || n.x != 0.0 || n.y != 0.0

def setPosition (n : GraphNode) (x y : Float) : GraphNode := { n with x, y, positioned := true }

def speed (n : GraphNode) : Float := Float.sqrt (n.vx * n.vx + n.vy * n.vy)

end GraphNode

structure GraphEdge where
  source : String
  target : String
  relationship : Relationship
  strength : Float
  color : String
  width : Float
deriving Inhabited

/-- The edge of a relationship; one without a strength has full strength. -/
def GraphEdge.ofRelationship (r : Relationship) : GraphEdge :=
  let strength := (r.metadata.strength.map Decimal.widen).getD 1.0
  { source := r.sourceId, target := r.targetId, relationship := r
    strength, color := "#999999", width := 1.0 + strength }

structure GraphData where
  nodes : List GraphNode := []
  edges : List GraphEdge := []
deriving Inhabited

/-- The first item of every key, in order. -/
def firstsBy {α β : Type} [BEq β] (key : α → β) (xs : List α) : List α :=
  let rec go (seen : List β) : List α → List α
    | [] => []
    | x :: rest => if seen.contains (key x) then go seen rest else x :: go (key x :: seen) rest
  go [] xs

namespace GraphData

/-- The graph of some symbols and the relationships between them. An id has one
node, and two ends have one edge of each type. -/
def ofParts (symbols : List Symbol) (relationships : List Relationship) : GraphData :=
  let kept := firstsBy Symbol.id symbols
  let ids := kept.map Symbol.id
  let inside := relationships.filter fun r => ids.contains r.sourceId && ids.contains r.targetId
  { nodes := kept.map GraphNode.ofSymbol
    edges := (firstsBy (fun r => (r.key, r.kind)) inside).map GraphEdge.ofRelationship }

def node? (d : GraphData) (id : String) : Option GraphNode := d.nodes.find? (·.id == id)

/-- The place of an id among the nodes; of a repeated id, its last place. -/
def indexOf? (d : GraphData) (id : String) : Option Nat :=
  let rec go (i : Nat) (found : Option Nat) : List GraphNode → Option Nat
    | [] => found
    | n :: rest => go (i + 1) (if n.id == id then some i else found) rest
  go 0 none d.nodes

/-- The files of the nodes, sorted. -/
def files (d : GraphData) : List String :=
  (d.nodes.map (·.symbol.uri)).eraseDups.mergeSort fun a b => a ≤ b

/-- The nodes whose ids are chosen, and the edges between them. -/
def induced (d : GraphData) (chosen : String → Bool) : GraphData :=
  { nodes := d.nodes.filter fun n => chosen n.id
    edges := d.edges.filter fun e => chosen e.source && chosen e.target }

end GraphData

instance : Wire GraphNode where
  encode n := .object
    [put "id" n.id, put "symbol" n.symbol, put "x" n.x, put "y" n.y, put "vx" n.vx, put "vy" n.vy,
      putSome "fx" n.fx, putSome "fy" n.fy, put "size" n.size, put "color" n.color,
      put "group" n.group, put "positioned" n.positioned]
  decode? := record? do
    let id ← required "id"
    let symbol ← required "symbol"
    let x ← required "x"
    let y ← required "y"
    let vx ← required "vx"
    let vy ← required "vy"
    let fx ← optional "fx"
    let fy ← optional "fy"
    let size ← required "size"
    let color ← required "color"
    let group ← required "group"
    let positioned ← withDefault "positioned" false
    return { id, symbol, x, y, vx, vy, fx, fy, size, color, group, positioned }

/-- An edge as JSON, given how the strength of its relationship is written. -/
def GraphEdge.toJson (strength : Float32 → Json) (e : GraphEdge) : Json :=
  .obj
    [("source", encode e.source), ("target", encode e.target),
      ("relationship", e.relationship.toJson strength), ("strength", encode e.strength),
      ("color", encode e.color), ("width", encode e.width)]

instance : Wire GraphEdge where
  encode := GraphEdge.toJson encode
  decode? := record? do
    let source ← required "source"
    let target ← required "target"
    let relationship ← required "relationship"
    let strength ← required "strength"
    let color ← required "color"
    let width ← required "width"
    return { source, target, relationship, strength, color, width }

/-- A graph as JSON, given how the strengths of relationships are written. -/
def GraphData.toJson (strength : Float32 → Json) (d : GraphData) : Json :=
  .obj [("nodes", encode d.nodes), ("edges", .arr (d.edges.map (GraphEdge.toJson strength)))]

instance : Wire GraphData where
  encode := GraphData.toJson encode
  decode? := record? do
    let nodes ← required "nodes"
    let edges ← required "edges"
    return { nodes, edges }

end CodeAtlas
