import CodeAtlas.Graph.Data
import CodeAtlas.Graph.Multigraph
import CodeAtlas.KeyMap

/-! A graph view: a directed graph over node ids, with parallel edges and loops.

The ids label the nodes of a multigraph, and an index tells the node of every id. -/
namespace CodeAtlas

structure SymbolGraph where
  inner : Multigraph := {}
  /-- The number of the node of every id. -/
  index : KeyMap Nat := {}

namespace SymbolGraph

def contains (g : SymbolGraph) (id : String) : Bool := g.index.contains id

/-- The node of an id, which is added if it is not there: its number, and the graph. -/
def addNode (g : SymbolGraph) (id : String) : Nat × SymbolGraph :=
  match g.index.find? id with
  | some v => (v, g)
  | none =>
    let (v, inner) := g.inner.addNode id
    (v, { inner, index := g.index.insert id v })

/-- Add an edge, if both its ends are known. -/
def addEdge (g : SymbolGraph) (source target : String) (kind : RelationshipType) :
    Bool × SymbolGraph :=
  match g.index.find? source, g.index.find? target with
  | some s, some t => (true, { g with inner := g.inner.addEdge s t kind })
  | _, _ => (false, g)

/-- The view of some data; edges with an unknown end are left out. -/
def ofGraphData (d : GraphData) : SymbolGraph :=
  let g := d.nodes.foldl (fun g n => (addNode g n.id).2) {}
  d.edges.foldl (fun g e => (addEdge g e.source e.target e.relationship.kind).2) g

/-- The ids, in the order they were added. -/
def nodes (g : SymbolGraph) : List String := g.inner.labels

def nodeCount (g : SymbolGraph) : Nat := g.inner.nodeCount

def edgeCount (g : SymbolGraph) : Nat := g.inner.edgeCount

/-- The ids on the other side of the edges of a node, in the order of the edges. -/
def directedNeighbors (g : SymbolGraph) (neighbors : Nat → List Nat) (id : String) : List String :=
  match g.index.find? id with
  | some v => ((neighbors v).map g.inner.label).reverse
  | none => []

/-- Where the edges from a node lead, an entry for each edge. -/
def successors (g : SymbolGraph) : String → List String := g.directedNeighbors g.inner.targets

/-- Where the edges to a node come from, an entry for each edge. -/
def predecessors (g : SymbolGraph) : String → List String := g.directedNeighbors g.inner.sources

/-- The distinct neighbours of a node, itself left out, newest edge first. -/
def neighbors (g : SymbolGraph) (id : String) : List String :=
  match g.index.find? id with
  | some v => (firstsBy (fun w => w) ((g.inner.around v).filter (· != v))).map g.inner.label
  | none => []

/-- The number of edges into each node, loops included. -/
def inDegrees (g : SymbolGraph) : List (String × Nat) :=
  (List.range g.nodeCount).map fun v => (g.inner.label v, (g.inner.sources v).length)

/-- The connected components, edges taken either way, each from its earliest node. -/
def connectedComponents (g : SymbolGraph) : List (List String) :=
  g.inner.components.map fun component => component.map g.inner.label

end SymbolGraph

end CodeAtlas
