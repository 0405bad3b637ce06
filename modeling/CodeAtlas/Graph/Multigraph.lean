import CodeAtlas.Symbol.Relationship

/-! A directed multigraph, with parallel edges and loops.

Nodes and edges are numbered as they are added, and nothing is ever taken out. The
neighbours of a node are listed newest edge first, those its edges lead to before those
they come from. -/
namespace CodeAtlas

/-- An edge between two nodes, by their numbers. -/
structure NumberedEdge where
  source : Nat
  target : Nat
  kind : RelationshipType
deriving DecidableEq, Inhabited, Repr

structure Multigraph where
  labels : List String := []
  edges : List NumberedEdge := []
deriving Inhabited, Repr

namespace Multigraph

def nodeCount (g : Multigraph) : Nat := g.labels.length

def edgeCount (g : Multigraph) : Nat := g.edges.length

def label (g : Multigraph) (v : Nat) : String := g.labels.getD v ""

/-- Add a node: its number, and the graph. -/
def addNode (g : Multigraph) (label : String) : Nat × Multigraph :=
  (g.nodeCount, { g with labels := g.labels ++ [label] })

def addEdge (g : Multigraph) (source target : Nat) (kind : RelationshipType) : Multigraph :=
  { g with edges := g.edges ++ [{ source, target, kind }] }

/-- The far ends of the edges that have their near end at a node, an entry for each edge. -/
def across (g : Multigraph) (near far : NumberedEdge → Nat) (v : Nat) : List Nat :=
  ((g.edges.filter fun e => near e == v).map far).reverse

/-- Where the edges from a node lead. -/
def targets (g : Multigraph) : Nat → List Nat := g.across (·.source) (·.target)

/-- Where the edges to a node come from. -/
def sources (g : Multigraph) : Nat → List Nat := g.across (·.target) (·.source)

/-- Both ways along the edges of a node; a loop counts once. -/
def around (g : Multigraph) (v : Nat) : List Nat := g.targets v ++ (g.sources v).filter (· != v)

/-- Depth first from the nodes on the stack: those found among the nodes that are not yet
discovered, in order of discovery. -/
def discover (g : Multigraph) (undiscovered stack : List Nat) : List Nat :=
  match stack with
  | [] => []
  | v :: rest =>
    if _h : v ∈ undiscovered then
      let left := undiscovered.erase v
      let next := ((g.around v).filter fun w => left.contains w).reverse
      v :: discover g left (next ++ rest)
    else discover g undiscovered rest
termination_by (undiscovered.length, stack.length)
decreasing_by
  · apply Prod.Lex.left
    have := List.length_pos_of_mem _h
    rw [List.length_erase_of_mem _h]
    omega
  · apply Prod.Lex.right
    simp

/-- A search of the whole graph from each start that was not visited; what was visited
before is left out of what it finds. -/
def componentsFrom (g : Multigraph) (visited : List Nat) : List Nat → List (List Nat)
  | [] => []
  | start :: rest =>
    if visited.contains start then componentsFrom g visited rest
    else
      let found := g.discover (List.range g.nodeCount) [start]
      let component := found.filter fun v => !visited.contains v
      component :: componentsFrom g (visited ++ component) rest

/-- The connected components, edges taken either way, each from its earliest node. -/
def components (g : Multigraph) : List (List Nat) := g.componentsFrom [] (List.range g.nodeCount)

end Multigraph

end CodeAtlas
