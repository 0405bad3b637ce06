import CodeAtlas.Geometry.Box

/-! Segments, and when two of them cross. -/
namespace CodeAtlas
open Scalar

variable {α : Type} [Scalar α]

structure Segment (α : Type) where
  start : Point α
  stop : Point α
deriving Repr

/-- Twice the signed area of a triangle: its sign tells on which side of the line
from `p` to `q` the point `r` lies. -/
def orientation (p q r : Point α) : α := (q.x - p.x) * (r.y - p.y) - (q.y - p.y) * (r.x - p.x)

/-- Are two numbers of opposite sign? -/
def areOpposite (a b : α) : Bool := less (a * b) (nat 0)

/-- Do the ends of each segment lie on different sides of the other? -/
def Segment.crosses (s t : Segment α) : Bool :=
  areOpposite (orientation t.start t.stop s.start) (orientation t.start t.stop s.stop) &&
    areOpposite (orientation s.start s.stop t.start) (orientation s.start s.stop t.stop)

/-- How many unordered pairs of items satisfy `p`. -/
def countPairs {β : Type} (p : β → β → Bool) : List β → Nat
  | [] => 0
  | b :: rest => rest.countP (p b) + countPairs p rest

/-- Where an id is among some places; of a repeated id, where it is last. -/
def placeOf (places : List (String × Point α)) (id : String) : Option (Point α) :=
  (places.reverse.find? (·.1 == id)).map Prod.snd

/-- A segment between two named places. -/
structure Link (α : Type) where
  source : String
  target : String
  segment : Segment α
deriving Repr

namespace Link

/-- The link between two ids, if both have a place. -/
def between? (place : String → Option (Point α)) (ends : String × String) : Option (Link α) :=
  match place ends.1, place ends.2 with
  | some p, some q => some ⟨ends.1, ends.2, ⟨p, q⟩⟩
  | _, _ => none

def sharesEnd (a b : Link α) : Bool :=
  a.source == b.source || a.source == b.target || a.target == b.source || a.target == b.target

/-- Links that share an end do not cross. -/
def crosses (a b : Link α) : Bool := !a.sharesEnd b && a.segment.crosses b.segment

end Link

/-- The number of crossings among edges, given by their ends, of those whose ends have
a place. -/
def countCrossings (places : List (String × Point α)) (ends : List (String × String)) : Nat :=
  countPairs Link.crosses (ends.filterMap (Link.between? (placeOf places)))

end CodeAtlas
