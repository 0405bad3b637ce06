import CodeAtlas.Layout.Normalization

/-! Viewports: how a layout is shown in a window. -/
namespace CodeAtlas
open Scalar

variable {α : Type} [Scalar α]

/-- A magnification, and then a shift. -/
structure Viewport (α : Type) where
  scale : α
  offset : Point α
deriving Repr

namespace Viewport

/-- Nothing is moved. -/
def identity : Viewport α := ⟨nat 1, ⟨nat 0, nat 0⟩⟩

def apply (v : Viewport α) (p : Point α) : Point α :=
  ⟨p.x * v.scale + v.offset.x, p.y * v.scale + v.offset.y⟩

/-- The viewport that shows a point in the middle of a window. -/
def centered (middle : Point α) (scale width height : α) : Viewport α :=
  ⟨scale, ⟨half width - middle.x * scale, half height - middle.y * scale⟩⟩

/-- A window never counts as smaller than this between its margins. -/
def roomIn (f : Frame α) (extent : α) : α := greatest (extent - nat 2 * f.padding) (nat 1)

/-- Show a whole box, at most twice as large as it is. -/
def fitBox (f : Frame α) (b : Box α) : Viewport α :=
  centered b.center (b.fitScale (nat 2) (roomIn f f.width) (roomIn f f.height)) f.width f.height

/-- Show some boxes; without any there is nothing to fit. -/
def fit (f : Frame α) (boxes : List (Box α)) : Viewport α :=
  match Box.hull? boxes with
  | none => identity
  | some b => fitBox f b

/-- The least and the greatest zoom. -/
def zoomRange : Float × Float := (0.1, 3.0)

def clampZoom (zoom : Float) : Float :=
  if zoom < zoomRange.1 then zoomRange.1 else if zoom > zoomRange.2 then zoomRange.2 else zoom

end Viewport

/-- A node is a square around its position. -/
def GraphNode.box (n : GraphNode) : Box Float := .around n.position n.size

/-- The smallest box around all nodes. -/
def nodeBounds (nodes : List GraphNode) : Option (Box Float) := Box.hull? (nodes.map GraphNode.box)

/-- Show all nodes in a window. -/
def fitNodes (nodes : List GraphNode) (f : Frame Float) : Viewport Float :=
  Viewport.fit f (nodes.map GraphNode.box)

/-- Show one node in the middle of a window. -/
def zoomToNode? (nodes : List GraphNode) (id : String) (width height zoom : Float) :
    Option (Viewport Float) :=
  (nodes.find? (·.id == id)).map fun n =>
    Viewport.centered n.position (Viewport.clampZoom zoom) width height

end CodeAtlas
