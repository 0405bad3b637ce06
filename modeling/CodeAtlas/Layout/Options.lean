import CodeAtlas.Decimal.Format
import CodeAtlas.Error
import CodeAtlas.Graph.Data
import CodeAtlas.Random.ChaCha

/-! Layout options, the built-in algorithms, and what a layout gives. -/
namespace CodeAtlas
open Json

inductive LayoutAlgorithm where
  | forceDirected | hierarchical | clustered | circular | grid | random
deriving DecidableEq, Inhabited, Repr

namespace LayoutAlgorithm

def all : List LayoutAlgorithm := [forceDirected, hierarchical, clustered, circular, grid, random]

/-- The tag an algorithm is registered under. -/
def tag : LayoutAlgorithm → String
  | forceDirected => "force-directed"
  | hierarchical => "hierarchical"
  | clustered => "clustered"
  | circular => "circular"
  | grid => "grid"
  | random => "random"

/-- Read a tag, whatever its ASCII case and whatever stands between its words. -/
def parse (text : String) : Except AtlasError LayoutAlgorithm :=
  let letters := (text.toList.filter Text.isAsciiAlphanumeric).map Text.asciiLower
  match String.ofList letters with
  | "forcedirected" | "force" => .ok forceDirected
  | "hierarchical" | "tree" => .ok hierarchical
  | "clustered" => .ok clustered
  | "circular" => .ok circular
  | "grid" => .ok grid
  | "random" => .ok random
  | _ => .error (.unknownAlgorithm text)

end LayoutAlgorithm

/-- A finite extent above zero, as a canvas must have. -/
def isValidExtent (x : Float) : Bool := x.isFinite && x > 0.0

/-- The canvas and the forces. -/
structure LayoutOptions where
  width : Float := 1200.0
  height : Float := 800.0
  nodeSpacing : Float := 60.0
  /-- Kept free on every side. -/
  padding : Float := 50.0
  iterations : Nat := 300
  gravity : Float := 0.01
  /-- Nodes repel each other when it is negative. -/
  charge : Float := -300.0
  linkDistance : Float := 100.0
  linkStrength : Float := 0.05
  velocityDamping : Float := 0.6
  velocityDecay : Float := 0.9
  seed : Option Nat := none
deriving Inhabited

namespace LayoutOptions

/-- The random numbers of a layout: those of its seed, or without one what is drawn. -/
def generator (o : LayoutOptions) (drawn : Random.Generator) : Random.Generator :=
  match o.seed with
  | some seed => .ofSeed (UInt64.ofNat seed)
  | none => drawn

/-- The parameters that have to be finite, by name. -/
def forces (o : LayoutOptions) : List (String × Float) :=
  [("nodeSpacing", o.nodeSpacing), ("gravity", o.gravity), ("charge", o.charge),
    ("linkDistance", o.linkDistance), ("linkStrength", o.linkStrength),
    ("velocityDamping", o.velocityDamping), ("velocityDecay", o.velocityDecay)]

/-- Why no layout can be made with these options, if that is so. -/
def fault? (o : LayoutOptions) : Option String :=
  if !isValidExtent o.width || !isValidExtent o.height then
    some ("canvas must have a positive size, got " ++ Decimal.plain o.width ++ "x" ++
      Decimal.plain o.height)
  else if !o.padding.isFinite || o.padding < 0.0 then
    some ("padding must be non-negative, got " ++ Decimal.plain o.padding)
  else
    (o.forces.find? fun (_, x) => !x.isFinite).map fun (name, x) =>
      name ++ " must be finite, got " ++ Decimal.plain x

def centerX (o : LayoutOptions) : Float := o.width / 2.0

def centerY (o : LayoutOptions) : Float := o.height / 2.0

def withCanvas (o : LayoutOptions) (width height : Float) : LayoutOptions := { o with width, height }

end LayoutOptions

/-- Some of the options; the others stay as they are. -/
structure LayoutOptionsUpdate where
  width : Option Float := none
  height : Option Float := none
  nodeSpacing : Option Float := none
  padding : Option Float := none
  iterations : Option Nat := none
  gravity : Option Float := none
  charge : Option Float := none
  linkDistance : Option Float := none
  linkStrength : Option Float := none
  velocityDamping : Option Float := none
  velocityDecay : Option Float := none
  seed : Option Nat := none
deriving Inhabited

def LayoutOptionsUpdate.apply (u : LayoutOptionsUpdate) (o : LayoutOptions) : LayoutOptions :=
  { width := u.width.getD o.width
    height := u.height.getD o.height
    nodeSpacing := u.nodeSpacing.getD o.nodeSpacing
    padding := u.padding.getD o.padding
    iterations := u.iterations.getD o.iterations
    gravity := u.gravity.getD o.gravity
    charge := u.charge.getD o.charge
    linkDistance := u.linkDistance.getD o.linkDistance
    linkStrength := u.linkStrength.getD o.linkStrength
    velocityDamping := u.velocityDamping.getD o.velocityDamping
    velocityDecay := u.velocityDecay.getD o.velocityDecay
    seed := u.seed.or o.seed }

/-- What a strategy tells about its run. -/
structure LayoutOutcome where
  iterations : Nat
  converged : Bool
deriving DecidableEq, Repr, Inhabited

/-- Placed at once, without a simulation. -/
def LayoutOutcome.placed : LayoutOutcome := ⟨0, true⟩

structure LayoutResult where
  nodes : List GraphNode
  edges : List GraphEdge
  algorithm : String
  options : LayoutOptions
  iterations : Nat
  converged : Bool
  elapsedMs : Float := 0.0
deriving Inhabited

instance : Wire LayoutOptions where
  encode o := .object
    [put "width" o.width, put "height" o.height, put "nodeSpacing" o.nodeSpacing,
      put "padding" o.padding, put "iterations" o.iterations, put "gravity" o.gravity,
      put "charge" o.charge, put "linkDistance" o.linkDistance, put "linkStrength" o.linkStrength,
      put "velocityDamping" o.velocityDamping, put "velocityDecay" o.velocityDecay,
      putSome "seed" o.seed]
  decode? := record? do
    let d : LayoutOptions := {}
    let width ← withDefault "width" d.width
    let height ← withDefault "height" d.height
    let nodeSpacing ← withDefault "nodeSpacing" d.nodeSpacing
    let padding ← withDefault "padding" d.padding
    let iterations ← withDefault "iterations" d.iterations
    let gravity ← withDefault "gravity" d.gravity
    let charge ← withDefault "charge" d.charge
    let linkDistance ← withDefault "linkDistance" d.linkDistance
    let linkStrength ← withDefault "linkStrength" d.linkStrength
    let velocityDamping ← withDefault "velocityDamping" d.velocityDamping
    let velocityDecay ← withDefault "velocityDecay" d.velocityDecay
    let seed ← optional "seed"
    return { width, height, nodeSpacing, padding, iterations, gravity, charge, linkDistance,
             linkStrength, velocityDamping, velocityDecay, seed }

instance : Wire LayoutOptionsUpdate where
  encode u := .obj
    [("width", encode u.width), ("height", encode u.height), ("nodeSpacing", encode u.nodeSpacing),
      ("padding", encode u.padding), ("iterations", encode u.iterations),
      ("gravity", encode u.gravity), ("charge", encode u.charge),
      ("linkDistance", encode u.linkDistance), ("linkStrength", encode u.linkStrength),
      ("velocityDamping", encode u.velocityDamping), ("velocityDecay", encode u.velocityDecay),
      ("seed", encode u.seed)]
  decode? := record? do
    let width ← optional "width"
    let height ← optional "height"
    let nodeSpacing ← optional "nodeSpacing"
    let padding ← optional "padding"
    let iterations ← optional "iterations"
    let gravity ← optional "gravity"
    let charge ← optional "charge"
    let linkDistance ← optional "linkDistance"
    let linkStrength ← optional "linkStrength"
    let velocityDamping ← optional "velocityDamping"
    let velocityDecay ← optional "velocityDecay"
    let seed ← optional "seed"
    return { width, height, nodeSpacing, padding, iterations, gravity, charge, linkDistance,
             linkStrength, velocityDamping, velocityDecay, seed }

instance : Wire LayoutResult where
  encode r := .obj
    [("nodes", encode r.nodes), ("edges", encode r.edges), ("algorithm", encode r.algorithm),
      ("options", encode r.options), ("iterations", encode r.iterations),
      ("converged", encode r.converged), ("elapsedMs", encode r.elapsedMs)]
  decode? := record? do
    let nodes ← required "nodes"
    let edges ← required "edges"
    let algorithm ← required "algorithm"
    let options ← required "options"
    let iterations ← required "iterations"
    let converged ← required "converged"
    let elapsedMs ← required "elapsedMs"
    return { nodes, edges, algorithm, options, iterations, converged, elapsedMs }

end CodeAtlas
