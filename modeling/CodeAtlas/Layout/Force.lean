import CodeAtlas.Geometry.Scalar
import CodeAtlas.Layout.Options

/-! Force-directed layout.

Nodes repel each other, edges pull their ends to a certain distance, and all are
drawn to the centre. Every step computes the forces from where the nodes stand and
then moves all of them at once. The simulation rests when no node is faster than a
certain speed. Pinned nodes push and pull and do not move. -/
namespace CodeAtlas.Force
open Scalar

/-- No node goes faster than this in a step. -/
def maxSpeed : Float := 10.0

/-- The simulation rests below this speed. -/
def restSpeed : Float := 0.1

/-- Beyond this many node spacings nodes do not repel each other. -/
def cutoffSpacings : Float := 5.0

/-- Nodes that are closer count as this far apart. -/
def minDistance : Float := 0.01

def goldenAngle : Float := 2.399963229728653

/-! ### Starting places -/

/-- At rest. -/
def still (n : GraphNode) : GraphNode := { n with vx := 0.0, vy := 0.0 }

/-- Where a node starts: at its pin, where it is, or anywhere on the canvas. -/
def placeOne (o : LayoutOptions) (n : GraphNode) (g : Random.Generator) :
    GraphNode × Random.Generator :=
  match n.fx, n.fy with
  | some x, some y => (still (n.setPosition x y), g)
  | _, _ =>
    if n.hasPosition then (still { n with positioned := true }, g)
    else
      let (x, g) := g.between 0.0 o.width
      let (y, g) := g.between 0.0 o.height
      (still (n.setPosition x y), g)

def placeAll (o : LayoutOptions) : List GraphNode → Random.Generator → List GraphNode × Random.Generator
  | [], g => ([], g)
  | n :: rest, g =>
    let (n, g) := placeOne o n g
    let (placed, g) := placeAll o rest g
    (n :: placed, g)

/-! ### Neighbours -/

/-- The places of the ends of every edge; loops and edges with an unknown end are
left out. -/
def links (d : GraphData) : List (Nat × Nat) :=
  d.edges.filterMap fun e =>
    match d.indexOf? e.source, d.indexOf? e.target with
    | some s, some t => if s == t then none else some (s, t)
    | _, _ => none

/-- The other end of a link at `i`. -/
def otherEnd? (i : Nat) (link : Nat × Nat) : Option Nat :=
  if link.1 == i then some link.2 else if link.2 == i then some link.1 else none

/-- The distinct neighbours of the node at `i`, in the order of the edges. -/
def neighborsOf (links : List (Nat × Nat)) (i : Nat) : List Nat :=
  firstsBy (fun j => j) (links.filterMap (otherEnd? i))

/-- The neighbours of every node, by their places. -/
def adjacency (d : GraphData) : List (List Nat) :=
  let links := links d
  (List.range d.nodes.length).map (neighborsOf links)

/-! ### Forces -/

/-- What a simulation knows of a node. -/
structure Body where
  x : Float
  y : Float
  vx : Float
  vy : Float
  pinned : Bool
deriving Inhabited

def Body.ofNode (n : GraphNode) : Body := ⟨n.x, n.y, n.vx, n.vy, n.isPinned⟩

def Body.speed (b : Body) : Float := Float.sqrt (b.vx * b.vx + b.vy * b.vy)

/-- Add up the repulsion of the bodies from place `j` on. Two bodies in one place
are pushed apart in a direction that depends on the pair. -/
def repulsion (cutoff charge : Float) (count i : Nat) (x y : Float) :
    Nat → List Body → Float → Float → Float × Float
  | _, [], fx, fy => (fx, fy)
  | j, b :: rest, fx, fy =>
    if i == j then repulsion cutoff charge count i x y (j + 1) rest fx fy
    else
      let dx := x - b.x
      let dy := y - b.y
      let distance := Float.sqrt (dx * dx + dy * dy)
      if distance > cutoff then repulsion cutoff charge count i x y (j + 1) rest fx fy
      else if distance < minDistance then
        let angle := (min i j * count + max i j).toFloat * goldenAngle
        let sign := if i < j then 1.0 else -1.0
        let magnitude := -charge / (minDistance * minDistance)
        repulsion cutoff charge count i x y (j + 1) rest
          (fx + sign * Float.cos angle * magnitude) (fy + sign * Float.sin angle * magnitude)
      else
        let magnitude := -charge / (distance * distance)
        repulsion cutoff charge count i x y (j + 1) rest
          (fx + dx / distance * magnitude) (fy + dy / distance * magnitude)

/-- Add up the pull of the edges to the given neighbours. -/
def attraction (o : LayoutOptions) (bodies : Array Body) (x y : Float) :
    List Nat → Float → Float → Float × Float
  | [], fx, fy => (fx, fy)
  | j :: rest, fx, fy =>
    let b := bodies.getD j default
    let dx := b.x - x
    let dy := b.y - y
    let distance := greatestFloat (Float.sqrt (dx * dx + dy * dy)) minDistance
    let pull := (distance - o.linkDistance) * o.linkStrength
    attraction o bodies x y rest (fx + dx / distance * pull) (fy + dy / distance * pull)

/-- The net force on the body at place `i`. -/
def force (o : LayoutOptions) (bodies : List Body) (table : Array Body) (neighbors : List Nat) (i : Nat)
    (b : Body) : Float × Float :=
  if b.pinned then (0.0, 0.0)
  else
    let (fx, fy) :=
      repulsion (o.nodeSpacing * cutoffSpacings) o.charge table.size i b.x b.y 0 bodies 0.0 0.0
    let (fx, fy) := attraction o table b.x b.y neighbors fx fy
    (fx + (o.centerX - b.x) * o.gravity, fy + (o.centerY - b.y) * o.gravity)

/-- The forces on all bodies from place `i` on. -/
def forces (o : LayoutOptions) (bodies : List Body) (table : Array Body) :
    Nat → List Body → List (List Nat) → List (Float × Float)
  | i, b :: rest, near :: more => force o bodies table near i b :: forces o bodies table (i + 1) rest more
  | _, _, _ => []

/-! ### Motion -/

def clamp (x lo hi : Float) : Float := if x < lo then lo else if x > hi then hi else x

/-- Move one body. The second part is how fast it went. -/
def move (o : LayoutOptions) (b : Body) (f : Float × Float) : Body × Option Float :=
  if b.pinned then (b, none)
  else
    let vx := b.vx * o.velocityDamping + f.1
    let vy := b.vy * o.velocityDamping + f.2
    let speed := Float.sqrt (vx * vx + vy * vy)
    let (vx, vy) := if speed > maxSpeed then (vx * (maxSpeed / speed), vy * (maxSpeed / speed)) else (vx, vy)
    let speed := Float.sqrt (vx * vx + vy * vy)
    ({ x := clamp (b.x + vx) 0.0 o.width
       y := clamp (b.y + vy) 0.0 o.height
       vx := vx * o.velocityDecay
       vy := vy * o.velocityDecay
       pinned := false }, some speed)

/-- One step: the bodies after it, and the greatest speed in it. -/
def step (o : LayoutOptions) (adjacent : List (List Nat)) (bodies : List Body) : List Body × Float :=
  let moved := bodies.zipWith (move o) (forces o bodies bodies.toArray 0 bodies adjacent)
  (moved.map Prod.fst, (moved.filterMap Prod.snd).foldl greatestFloat 0.0)

/-- Up to `left` further steps after `taken` ones. -/
def steps (o : LayoutOptions) (adjacent : List (List Nat)) :
    Nat → Nat → List Body → List Body × LayoutOutcome
  | 0, taken, bodies => (bodies, ⟨taken, false⟩)
  | left + 1, taken, bodies =>
    let (bodies, speed) := step o adjacent bodies
    if speed < restSpeed then (bodies, ⟨taken + 1, true⟩) else steps o adjacent left (taken + 1) bodies

/-- A node where its body is. -/
def settle (n : GraphNode) (b : Body) : GraphNode := { n with x := b.x, y := b.y, vx := b.vx, vy := b.vy }

/-- What a simulation ends with. -/
structure Run where
  nodes : List GraphNode
  outcome : LayoutOutcome
  generator : Random.Generator

/-- Run at most `iterations` steps. When every node is pinned there is nothing to do. -/
def simulate (d : GraphData) (o : LayoutOptions) (iterations : Nat) (g : Random.Generator) : Run :=
  let (nodes, g) := placeAll o d.nodes g
  if nodes.all GraphNode.isPinned then ⟨nodes, ⟨0, true⟩, g⟩
  else
    let (bodies, outcome) := steps o (adjacency d) iterations 0 (nodes.map Body.ofNode)
    ⟨nodes.zipWith settle bodies, outcome, g⟩

end CodeAtlas.Force
