import CodeAtlas.Decimal.Binary

/-! The shortest decimal that reads back as a given float.

A decimal reads back as the float when it lies in the float's rounding interval,
whose ends count exactly when the mantissa is even. For one digit, two, and so on
up to seventeen, the two neighbours of the value on that decimal grid are tried;
the first grid with a hit wins, and of two hits the nearer one. -/
namespace CodeAtlas.Decimal

/-- `digits · 10 ^ exponent`. -/
structure Digits where
  digits : Nat
  exponent : Int
deriving Repr, DecidableEq, Inhabited

/-- Is `10 ^ k ≤ num / den`? -/
def powerAtMost (k : Int) (num den : Nat) : Bool :=
  if 0 ≤ k then Nat.pow 10 k.toNat * den ≤ num else den ≤ num * Nat.pow 10 (-k).toNat

/-- The exponent of the leading digit of `num / den`, from a lower estimate. -/
def raiseExponent (num den : Nat) : Nat → Int → Int
  | 0, k => k
  | n + 1, k => if powerAtMost (k + 1) num den then raiseExponent num den n (k + 1) else k

/-- The greatest `k` with `10 ^ k ≤ num / den`. -/
def leadingExponent (num den : Nat) : Int :=
  let bits : Int := (num.log2 : Int) - den.log2
  raiseExponent num den 5 ((bits - 1) * 30103 / 100000 - 2)

/-- The rounding interval of a float, with the float itself, over one denominator. -/
structure Interval where
  low : Nat
  value : Nat
  high : Nat
  den : Nat
  closed : Bool

/-- The interval of `mantissa · 2 ^ exponent`, counted in quarter units. -/
def Interval.around (mantissa : Nat) (exponent : Int) (narrowBelow : Bool) : Interval :=
  let unit := scaled 1 (exponent - 2)
  let low := if narrowBelow then 4 * mantissa - 1 else 4 * mantissa - 2
  ⟨low * unit.1, 4 * mantissa * unit.1, (4 * mantissa + 2) * unit.1, unit.2, mantissa % 2 == 0⟩

/-- Does `d · 10 ^ e` lie in the interval? -/
def Interval.holds (i : Interval) (d : Nat) (e : Int) : Bool :=
  let (x, s) := if 0 ≤ e then (d * Nat.pow 10 e.toNat * i.den, 1) else (d * i.den, Nat.pow 10 (-e).toNat)
  if i.closed then i.low * s ≤ x && x ≤ i.high * s else i.low * s < x && x < i.high * s

/-- The two grid points next to the value, at steps of `10 ^ e`: the one not above
it, and whether the value is past the middle (or on it, with the lower one odd). -/
def Interval.neighbours (i : Interval) (e : Int) : Nat × Bool :=
  let (x, s) :=
    if 0 ≤ e then (i.value, i.den * Nat.pow 10 e.toNat) else (i.value * Nat.pow 10 (-e).toNat, i.den)
  let d := x / s
  let twice := 2 * (x - d * s)
  (d, twice > s || (twice == s && d % 2 == 1))

/-- The hit on the grid with steps of `10 ^ e`, if there is one. -/
def Interval.hit (i : Interval) (e : Int) : Option Nat :=
  let (d, up) := i.neighbours e
  let below := i.holds d e
  let above := i.holds (d + 1) e
  if below && above then some (if up then d + 1 else d)
  else if below then some d
  else if above then some (d + 1)
  else none

/-- Try finer and finer grids. -/
def Interval.refine (i : Interval) : Nat → Int → Digits
  | 0, e => let (d, up) := i.neighbours e; ⟨if up then d + 1 else d, e⟩
  | n + 1, e =>
    match i.hit e with
    | some d => ⟨d, e⟩
    | none => i.refine n (e - 1)

/-- Drop trailing zeros of the digits. -/
def Digits.strip (d : Digits) : Nat → Digits
  | 0 => d
  | n + 1 =>
    if d.digits % 10 == 0 && d.digits != 0 then Digits.strip ⟨d.digits / 10, d.exponent + 1⟩ n else d

/-- The fewest digits that read back as `mantissa · 2 ^ exponent`. -/
def shortest (mantissa : Nat) (exponent : Int) (narrowBelow : Bool) : Digits :=
  if mantissa == 0 then ⟨0, 0⟩
  else
    let i := Interval.around mantissa exponent narrowBelow
    (i.refine 17 (leadingExponent i.value i.den)).strip 20

end CodeAtlas.Decimal
