import CodeAtlas.Geometry.Box
import CodeAtlas.Layout.Options

/-! Fitting a layout into its canvas.

One map is applied to all points: it scales both axes alike, never to more than
twice the size, so that the points fit between the margins, and it puts the centre
of their box into the centre of the canvas. -/
namespace CodeAtlas
open Scalar

/-- A canvas with a margin on every side. -/
structure Frame (α : Type) where
  width : α
  height : α
  padding : α
deriving Repr

namespace Frame

variable {α : Type} [Scalar α]

/-- What the margins leave of an extent. -/
def room (f : Frame α) (extent : α) : α := greatest (extent - nat 2 * f.padding) (nat 0)

/-- How much the contents of a box are magnified. -/
def scale (f : Frame α) (b : Box α) : α := b.fitScale (nat 2) (f.room f.width) (f.room f.height)

/-- Where a point of a box comes to lie. -/
def place (f : Frame α) (b : Box α) (p : Point α) : Point α :=
  { x := (p.x - b.center.x) * f.scale b + half f.width
    y := (p.y - b.center.y) * f.scale b + half f.height }

/-- Where points come to lie. -/
def placeAll (f : Frame α) (points : List (Point α)) : List (Point α) :=
  match Box.hull? (points.map Box.ofPoint) with
  | none => []
  | some b => points.map (f.place b)

end Frame

def GraphNode.position (n : GraphNode) : Point Float := ⟨n.x, n.y⟩

def GraphNode.moveTo (n : GraphNode) (p : Point Float) : GraphNode := n.setPosition p.x p.y

def LayoutOptions.frame (o : LayoutOptions) : Frame Float := ⟨o.width, o.height, o.padding⟩

/-- Nodes moved to fit their canvas. -/
def LayoutOptions.normalize (o : LayoutOptions) (nodes : List GraphNode) : List GraphNode :=
  nodes.zipWith GraphNode.moveTo (o.frame.placeAll (nodes.map GraphNode.position))

end CodeAtlas
