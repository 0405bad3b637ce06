/-! Clocks and periodic timers.

Moments are whole milliseconds. A clock never goes back. A timer ticks at the end
of every period, from the moment it was started. -/
namespace CodeAtlas

/-- The time since the start, and the time of day it goes with. -/
structure Clock where
  now : Nat := 0
  /-- The time of day, in milliseconds since 1970. -/
  wall : Int := 0
deriving DecidableEq, Inhabited, Repr

structure Timer where
  period : Nat
  /-- The moment of the next tick. -/
  next : Nat
deriving DecidableEq, Inhabited, Repr

namespace Timer

/-- A timer started now; there is none without a period. -/
def start? (now period : Nat) : Option Timer :=
  if period == 0 then none else some ⟨period, now + period⟩

/-- How often the timer ticks up to a moment, that moment included. -/
def ticksUntil (t : Timer) (moment : Nat) : Nat :=
  if moment < t.next then 0 else (moment - t.next) / t.period + 1

/-- The moments of these ticks. -/
def dueUntil (t : Timer) (moment : Nat) : List Nat :=
  (List.range (t.ticksUntil moment)).map fun k => t.next + k * t.period

/-- The timer after these ticks. -/
def after (t : Timer) (moment : Nat) : Timer :=
  { t with next := t.next + t.ticksUntil moment * t.period }

end Timer

end CodeAtlas
