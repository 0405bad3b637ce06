/-! Numbers that geometry is done with.

Floats are what layouts run on; exact rationals obey the same formulas without
rounding. The lesser and the greater of two floats pass over an undefined one. -/
namespace CodeAtlas

class Scalar (α : Type) extends Add α, Sub α, Mul α, Div α where
  nat : Nat → α
  less : α → α → Bool
  least : α → α → α
  greatest : α → α → α

namespace Scalar

def leastFloat (a b : Float) : Float :=
  if a.isNaN then b else if b.isNaN then a else if b < a then b else a

def greatestFloat (a b : Float) : Float :=
  if a.isNaN then b else if b.isNaN then a else if a < b then b else a

instance : Scalar Float where
  nat := Float.ofNat
  less a b := a < b
  least := leastFloat
  greatest := greatestFloat

instance : Scalar Rat where
  nat n := n
  less a b := a < b
  least a b := if b < a then b else a
  greatest a b := if a < b then b else a

end Scalar

end CodeAtlas
