import CodeAtlas.Geometry.Scalar

/-! Points, boxes, and how a box is fitted into a frame. -/
namespace CodeAtlas
open Scalar

variable {α : Type} [Scalar α]

structure Point (α : Type) where
  x : α
  y : α
deriving Repr, DecidableEq, Inhabited

/-- An upright box. -/
structure Box (α : Type) where
  minX : α
  minY : α
  maxX : α
  maxY : α
deriving Repr, DecidableEq, Inhabited

def half (a : α) : α := a / nat 2

namespace Box

def ofPoint (p : Point α) : Box α := ⟨p.x, p.y, p.x, p.y⟩

/-- The box around a point, as far as `r` on every side. -/
def around (p : Point α) (r : α) : Box α := ⟨p.x - r, p.y - r, p.x + r, p.y + r⟩

def union (a b : Box α) : Box α :=
  ⟨least a.minX b.minX, least a.minY b.minY, greatest a.maxX b.maxX, greatest a.maxY b.maxY⟩

/-- The smallest box that holds all of some boxes. -/
def hull? : List (Box α) → Option (Box α)
  | [] => none
  | b :: rest => some (rest.foldl union b)

def width (b : Box α) : α := b.maxX - b.minX

def height (b : Box α) : α := b.maxY - b.minY

def area (b : Box α) : α := b.width * b.height

def center (b : Box α) : Point α := ⟨half (b.minX + b.maxX), half (b.minY + b.maxY)⟩

/-- How much an extent can be magnified to fill the room; an extent of nothing
sets no limit. -/
def axisScale? (content available : α) : Option α :=
  if less (nat 0) content then some (available / content) else none

/-- The greatest scale that is not above the cap and keeps both extents within
the room. -/
def fitScale (cap availableWidth availableHeight : α) (b : Box α) : α :=
  [axisScale? b.width availableWidth, axisScale? b.height availableHeight].filterMap id |>.foldl least cap

end Box

end CodeAtlas
