import CodeAtlas.Graph.View
import CodeAtlas.Layout.Force

/-! The built-in layout strategies. -/
namespace CodeAtlas

/-- A way of placing the nodes of a graph, from the random numbers that are drawn for
options without a seed. -/
abbrev Strategy := Random.Generator → GraphData → LayoutOptions → Except AtlasError (GraphData × LayoutOutcome)

namespace Strategy

/-- Give every node the place that goes with its position in the list. -/
def placeEach (d : GraphData) (place : Nat → Float × Float) : GraphData :=
  { d with nodes := d.nodes.mapIdx fun i n => n.setPosition (place i).1 (place i).2 }

def ceilDiv (a b : Nat) : Nat := (a + b - 1) / b

/-- The number of columns of a grid that is about as wide as it is high: the square root
of the count, rounded up. -/
def columnsFor (count : Nat) : Nat :=
  match Decimal.Value.ofFloat (Float.sqrt count.toFloat) with
  | .finite _ mantissa exponent _ =>
    let (numerator, denominator) := Decimal.scaled mantissa exponent
    ceilDiv numerator denominator
  | _ => 0

/-! ### Simulation -/

def forceDirected : Strategy := fun drawn d o =>
  let run := Force.simulate d o o.iterations (o.generator drawn)
  .ok ({ d with nodes := run.nodes }, run.outcome)

/-! ### Levels -/

/-- How far the levelling of a graph has come. -/
structure Levelling where
  /-- Links into each node from nodes without a level. -/
  waiting : Array Nat
  level : Array (Option Nat)

/-- Take away one link into a node, where there is one left; the node is next when it
was the last. -/
def release? (s : Levelling × List Nat) (target : Nat) : Option (Levelling × List Nat) :=
  match s.1.waiting[target]? with
  | some (left + 1) =>
    some ({ s.1 with waiting := s.1.waiting.setIfInBounds target left },
      if left == 0 then target :: s.2 else s.2)
  | _ => none

/-- Give a node its level and release what its links lead to. -/
def assign? (links : List (Nat × Nat)) (depth : Nat) (s : Levelling × List Nat) (node : Nat) :
    Option (Levelling × List Nat) :=
  if node < s.1.level.size then
    let s := ({ s.1 with level := s.1.level.setIfInBounds node (some depth) }, s.2)
    ((links.filter (·.1 == node)).map (·.2)).foldlM release? s
  else none

/-- Level after level, until no node is next: the levels, and how many there are. There
are none when there would be more levels than are allowed for. -/
def peel? (links : List (Nat × Nat)) : Nat → Nat → List Nat → Levelling → Option (Levelling × Nat)
  | _, depth, [], s => some (s, depth)
  | 0, _, _ :: _, _ => none
  | allowed + 1, depth, current, s => do
    let (s, next) ← current.foldlM (assign? links depth) (s, [])
    peel? links allowed (depth + 1) next.reverse s

/-- The level of every node: the length of the longest way to it, and one further
level for what a cycle leads to. -/
def levels? (d : GraphData) : Option (List Nat) := do
  let links := Force.links d
  let count := d.nodes.length
  let waiting := (List.range count).map fun i => links.countP (·.2 == i)
  let start := (List.range count).filter fun i => waiting.getD i 0 == 0
  let (s, depth) ← peel? links count 0 start ⟨waiting.toArray, Array.replicate count none⟩
  return s.level.toList.map fun l => l.getD depth

/-- The levels, of which there are always as many as nodes. -/
def levels (d : GraphData) : List Nat := (levels? d).getD []

/-- A row for every level, each centred. -/
def hierarchical : Strategy := fun _ d o =>
  let levels := levels d
  let count := (levels.map (· + 1)).foldl max 0
  let spacing := o.nodeSpacing * 2.0
  let rowHeight := o.height / (count + 1).toFloat
  let place (i : Nat) : Float × Float :=
    let level := levels.getD i 0
    let row := levels.countP (· == level)
    let slot := (levels.take i).countP (· == level)
    let offset := (row.toFloat - 1.0) / 2.0
    (o.centerX + (slot.toFloat - offset) * spacing, rowHeight * (level + 1).toFloat)
  .ok (placeEach d place, .placed)

/-! ### Clusters -/

/-- Set the position of a node by its id. -/
def placeById (d : GraphData) (id : String) (x y : Float) : GraphData :=
  match d.indexOf? id with
  | none => d
  | some i => { d with nodes := d.nodes.modify i fun n => n.setPosition x y }

/-- How far the layout of the clusters has come. -/
structure Tiling where
  data : GraphData
  outcome : LayoutOutcome
  generator : Random.Generator
  cell : Nat

/-- Simulate one component on a canvas of its own and put it into its cell. -/
def tile (o : LayoutOptions) (columns : Nat) (width height : Float) (t : Tiling) (component : List String) :
    Tiling :=
  let sub := t.data.induced component.contains
  let run := Force.simulate sub (o.withCanvas width height) o.iterations t.generator
  let left := (t.cell % columns).toFloat * width
  let top := (t.cell / columns).toFloat * height
  { data := run.nodes.foldl (fun d n => placeById d n.id (left + n.x) (top + n.y)) t.data
    outcome := ⟨max t.outcome.iterations run.outcome.iterations,
      t.outcome.converged && run.outcome.converged⟩
    generator := run.generator
    cell := t.cell + 1 }

/-- A simulation for every connected component, side by side in the cells of a grid. -/
def clustered : Strategy := fun drawn d o =>
  let components := (SymbolGraph.ofGraphData d).connectedComponents
  if components.isEmpty then .ok (d, .placed)
  else
    let columns := columnsFor components.length
    let rows := ceilDiv components.length columns
    let width := o.width / columns.toFloat
    let height := o.height / rows.toFloat
    let t := components.foldl (tile o columns width height) ⟨d, .placed, o.generator drawn, 0⟩
    .ok (t.data, t.outcome)

/-! ### Direct placement -/

def tau : Float := 6.283185307179586

def quarterTurn : Float := 1.5707963267948966

/-- On a circle, from twelve o'clock on; a single node in the centre. -/
def circular : Strategy := fun _ d o =>
  let radius := Scalar.greatestFloat (Scalar.leastFloat o.width o.height / 2.0 - o.padding) o.nodeSpacing
  let count := d.nodes.length
  let place (i : Nat) : Float × Float :=
    if count == 1 then (o.centerX, o.centerY)
    else
      let angle := tau * i.toFloat / count.toFloat - quarterTurn
      (o.centerX + radius * Float.cos angle, o.centerY + radius * Float.sin angle)
  .ok (placeEach d place, .placed)

/-- Row by row on a grid around the centre. -/
def grid : Strategy := fun _ d o =>
  let count := d.nodes.length
  let columns := columnsFor count
  let rows := ceilDiv count columns
  let cell := o.nodeSpacing * 2.0
  let left := o.centerX - (columns.toFloat - 1.0) * cell / 2.0
  let top := o.centerY - (rows.toFloat - 1.0) * cell / 2.0
  let place (i : Nat) : Float × Float :=
    (left + (i % columns).toFloat * cell, top + (i / columns).toFloat * cell)
  .ok (placeEach d place, .placed)

/-- The part of an extent that is left by a margin on either side, or all of it
when the margins do not fit. -/
def withinMargin (extent margin : Float) : Float × Float :=
  if extent > 2.0 * margin then (margin, extent - margin) else (0.0, Scalar.greatestFloat extent 0.0)

def scatter (xs ys : Float × Float) : List GraphNode → Random.Generator → List GraphNode
  | [], _ => []
  | n :: rest, g =>
    let (x, g) := g.between xs.1 xs.2
    let (y, g) := g.between ys.1 ys.2
    n.setPosition x y :: scatter xs ys rest g

/-- Anywhere inside the padding. -/
def random : Strategy := fun drawn d o =>
  let nodes := scatter (withinMargin o.width o.padding) (withinMargin o.height o.padding) d.nodes
    (o.generator drawn)
  .ok ({ d with nodes }, .placed)

/-- The strategy of a built-in algorithm. -/
def ofAlgorithm : LayoutAlgorithm → Strategy
  | .forceDirected => forceDirected
  | .hierarchical => hierarchical
  | .clustered => clustered
  | .circular => circular
  | .grid => grid
  | .random => random

end Strategy

end CodeAtlas
