import CodeAtlas.Geometry.Crossing
import CodeAtlas.Layout.Viewport

/-! How good a layout is.

A layout starts with a score of 100 and loses some for every finding: nodes that
overlap, too many crossings, too much room, a simulation that did not come to rest. -/
namespace CodeAtlas
open Json

structure LayoutQuality where
  score : Float
  overlaps : Nat
  crossings : Nat
  issues : List String
  suggestions : List String
deriving Inhabited

instance : Wire LayoutQuality where
  encode q := .obj
    [("score", encode q.score), ("overlaps", encode q.overlaps), ("crossings", encode q.crossings),
      ("issues", encode q.issues), ("suggestions", encode q.suggestions)]
  decode? := record? do
    let score ← required "score"
    let overlaps ← required "overlaps"
    let crossings ← required "crossings"
    let issues ← required "issues"
    let suggestions ← required "suggestions"
    return { score, overlaps, crossings, issues, suggestions }

/-- Something to mend. -/
structure Finding where
  penalty : Float
  issue : String
  suggestion : String

namespace LayoutQuality

/-- A layout may take this many times the room its nodes need. -/
def roomFactor : Float := 4.0

def distance (p q : Point Float) : Float :=
  Float.sqrt ((p.x - q.x) * (p.x - q.x) + (p.y - q.y) * (p.y - q.y))

/-- The number of pairs of nodes that are closer than `threshold`. -/
def countOverlaps (nodes : List GraphNode) (threshold : Float) : Nat :=
  countPairs (fun a b : GraphNode => distance a.position b.position < threshold) nodes

/-- The number of crossings of edges whose ends are known. -/
def edgeCrossings (nodes : List GraphNode) (edges : List GraphEdge) : Nat :=
  countCrossings (nodes.map fun n => (n.id, n.position)) (edges.map fun e => (e.source, e.target))

def overlapFinding? (overlaps : Nat) : Option Finding :=
  if overlaps == 0 then none
  else some ⟨overlaps.toFloat * 2.0, toString overlaps ++ " pairs of nodes overlap",
    "Increase node spacing or charge strength"⟩

/-- A crossing for every other edge is tolerated. -/
def crossingFinding? (edges crossings : Nat) : Option Finding :=
  let tolerated := edges / 2
  if crossings ≤ tolerated then none
  else some ⟨(crossings - tolerated).toFloat, toString crossings ++ " edge crossings",
    "Try the hierarchical or clustered layout"⟩

def roomFinding? (nodes : List GraphNode) (spacing : Float) : Option Finding :=
  (nodeBounds nodes).bind fun bounds =>
    let expected := nodes.length.toFloat * spacing * spacing
    if expected > 0.0 && bounds.area > expected * roomFactor then
      some ⟨10.0, "Layout is spread far wider than its node count needs",
        "Increase gravity or shorten link distance"⟩
    else none

def restFinding? (outcome : LayoutOutcome) : Option Finding :=
  if outcome.converged then none
  else some ⟨10.0, "Simulation did not converge in " ++ toString outcome.iterations ++ " iterations",
    "Run optimizeLayout or raise the iteration budget"⟩

/-- What findings leave of a full score. -/
def scoreAfter (findings : List Finding) : Float :=
  Scalar.greatestFloat (findings.foldl (fun score f => score - f.penalty) 100.0) 0.0

end LayoutQuality

open LayoutQuality in
/-- Judge a layout. -/
def LayoutResult.quality (r : LayoutResult) : LayoutQuality :=
  let spacing := r.options.nodeSpacing
  let overlaps := countOverlaps r.nodes (spacing / 2.0)
  let crossings := edgeCrossings r.nodes r.edges
  let findings := [overlapFinding? overlaps, crossingFinding? r.edges.length crossings,
    roomFinding? r.nodes spacing, restFinding? ⟨r.iterations, r.converged⟩].filterMap id
  { score := scoreAfter findings, overlaps, crossings
    issues := findings.map Finding.issue
    suggestions := findings.map Finding.suggestion }

end CodeAtlas
