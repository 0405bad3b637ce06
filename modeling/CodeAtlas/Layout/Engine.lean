import CodeAtlas.KeyMap
import CodeAtlas.Layout.Normalization
import CodeAtlas.Layout.Strategy
import CodeAtlas.Signal.Event

/-! The layout engine: strategies by tag, and the three ways to a layout.

A layout is computed from nothing by a strategy, brought up to date around some
changed nodes, or improved by further simulation. In each case the options are
checked first, and the positions before they are fitted into the canvas. A layout
that is returned is announced, and a failure is not. Every time random numbers are
drawn anew, for options without a seed. -/
namespace CodeAtlas

structure LayoutEngine where
  strategies : KeyMap Strategy := {}
  defaults : LayoutOptions := {}
  /-- Announced and not yet delivered, oldest first. -/
  signals : List GraphEvent := []

namespace LayoutEngine

def register (e : LayoutEngine) (tag : String) (s : Strategy) : LayoutEngine :=
  { e with strategies := e.strategies.insert tag s }

/-- The built-in strategies, each under its tag. -/
def ofDefaults (defaults : LayoutOptions) : LayoutEngine :=
  LayoutAlgorithm.all.foldl (fun e a => e.register a.tag (.ofAlgorithm a)) { defaults }

/-- The tags, sorted. -/
def algorithms (e : LayoutEngine) : List String := e.strategies.keys

/-! ### Checks -/

/-- Graphs with more nodes than this get a smaller simulation. -/
def largeGraph : Nat := 500

/-- For a large graph, at most 100 steps with half the charge. -/
def scaleForSize (o : LayoutOptions) (nodeCount : Nat) : LayoutOptions :=
  if nodeCount > largeGraph then
    { o with iterations := min o.iterations 100, charge := o.charge / 2.0 }
  else o

/-- An error told as the failure of a layout. -/
def asLayoutFailure (tag : String) (e : AtlasError) : AtlasError :=
  match e with
  | .layoutFailed a c => .layoutFailed a c
  | other => .layoutFailed tag other.message

def ensureUsable (tag : String) (o : LayoutOptions) : Except AtlasError Unit :=
  match o.fault? with
  | some cause => .error (.layoutFailed tag cause)
  | none => .ok ()

def isPlaced (n : GraphNode) : Bool := n.x.isFinite && n.y.isFinite

def ensureFinite (tag : String) (nodes : List GraphNode) : Except AtlasError Unit :=
  match nodes.find? (!isPlaced ·) with
  | some n => .error (.layoutFailed tag ("non-finite position for " ++ n.id))
  | none => .ok ()

/-- The strategy of a tag, or of a built-in algorithm by any of its spellings. -/
def resolve (e : LayoutEngine) (algorithm : String) : Except AtlasError (String × Strategy) :=
  match e.strategies.find? algorithm with
  | some s => .ok (algorithm, s)
  | none =>
    match LayoutAlgorithm.parse algorithm with
    | .error cause => .error cause
    | .ok builtIn =>
      match e.strategies.find? builtIn.tag with
      | some s => .ok (builtIn.tag, s)
      | none => .error (.unknownAlgorithm algorithm)

/-! ### From nothing -/

def compute? (e : LayoutEngine) (drawn : Random.Generator) (d : GraphData) (algorithm : String)
    (u : LayoutOptionsUpdate) : Except AtlasError LayoutResult := do
  let (tag, strategy) ← e.resolve algorithm
  let options := scaleForSize (u.apply e.defaults) d.nodes.length
  ensureUsable tag options
  let (placed, outcome) ← (strategy drawn d options).mapError (asLayoutFailure tag)
  ensureFinite tag placed.nodes
  return { nodes := options.normalize placed.nodes, edges := placed.edges, algorithm := tag, options,
           iterations := outcome.iterations, converged := outcome.converged }

/-! ### Around a change -/

/-- A node where an earlier layout had it; of a repeated id, where it was last. -/
def recallPosition (previous : List GraphNode) (n : GraphNode) : GraphNode :=
  match previous.reverse.find? (·.id == n.id) with
  | some old => n.setPosition old.x old.y
  | none => n

/-- The ids a change touches: nodes that are new, known ids that are listed, and
the neighbours of these. -/
def affectedIds (d : GraphData) (previous : List GraphNode) (changed : List String) : List String :=
  let fresh := (d.nodes.map GraphNode.id).filter fun id => !previous.any (·.id == id)
  let view := SymbolGraph.ofGraphData d
  fresh ++ (changed.filter view.contains).flatMap fun id => id :: view.neighbors id

/-- Simulate the affected nodes among themselves, for a quarter of the steps; the
others stay where they were. -/
def incremental? (drawn : Random.Generator) (d : GraphData) (previous : LayoutResult) (changed : List String) :
    Except AtlasError LayoutResult := do
  let options := previous.options
  ensureUsable previous.algorithm options
  let recalled := { d with nodes := d.nodes.map (recallPosition previous.nodes) }
  let affected := affectedIds d previous.nodes changed
  let part := recalled.induced affected.contains
  let run := Force.simulate part options (max (options.iterations / 4) 1) (options.generator drawn)
  ensureFinite "incremental" run.nodes
  let settled := run.nodes.foldl (fun d n => Strategy.placeById d n.id n.x n.y) recalled
  return { nodes := settled.nodes, edges := d.edges, algorithm := previous.algorithm, options,
           iterations := run.outcome.iterations, converged := run.outcome.converged }

/-! ### From a layout -/

/-- Simulate on from where the nodes are. -/
def optimize? (drawn : Random.Generator) (r : LayoutResult) (extra : Option Nat) :
    Except AtlasError LayoutResult := do
  let options := r.options
  let tag := LayoutAlgorithm.forceDirected.tag
  ensureUsable tag options
  let nodes := r.nodes.map fun n => { n with positioned := true }
  let run := Force.simulate { nodes, edges := r.edges } options (extra.getD options.iterations)
    (options.generator drawn)
  ensureFinite tag run.nodes
  return { nodes := options.normalize run.nodes, edges := r.edges, algorithm := tag, options,
           iterations := r.iterations + run.outcome.iterations, converged := run.outcome.converged }

/-! ### Announced -/

/-- Announce a layout under a tag, if there is one. -/
def announcing (tag : LayoutResult → String) (r : Except AtlasError LayoutResult) :
    StateM LayoutEngine (Except AtlasError LayoutResult) := fun e =>
  match r with
  | .error cause => (.error cause, e)
  | .ok r =>
    (.ok r, { e with signals := e.signals ++ [.layoutComputed (tag r) r.nodes.length r.elapsedMs] })

def compute (drawn : Random.Generator) (d : GraphData) (algorithm : String) (u : LayoutOptionsUpdate) :
    StateM LayoutEngine (Except AtlasError LayoutResult) := fun e =>
  announcing LayoutResult.algorithm (e.compute? drawn d algorithm u) e

def incremental (drawn : Random.Generator) (d : GraphData) (previous : LayoutResult) (changed : List String) :
    StateM LayoutEngine (Except AtlasError LayoutResult) :=
  announcing (fun _ => "incremental") (incremental? drawn d previous changed)

def optimize (drawn : Random.Generator) (r : LayoutResult) (extra : Option Nat) :
    StateM LayoutEngine (Except AtlasError LayoutResult) :=
  announcing LayoutResult.algorithm (optimize? drawn r extra)

end LayoutEngine

end CodeAtlas
