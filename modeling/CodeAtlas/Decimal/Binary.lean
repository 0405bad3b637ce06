/-! Floating-point numbers as exact fractions.

A finite number is `mantissa · 2 ^ exponent`. What is nearer to it than to any
other number of its width lies between it and the halfway points to its two
neighbours; below a power of two the lower neighbour is half as far away.

Every number of single precision is one of double precision. A number of double
precision becomes the nearest one of single precision, of two as near as each other
the one with the even mantissa, and is infinite past the greatest. -/
namespace CodeAtlas.Decimal

/-- The value of a float, taken apart. -/
inductive Value where
  | nan
  | infinite (negative : Bool)
  | finite (negative : Bool) (mantissa : Nat) (exponent : Int) (narrowBelow : Bool)
deriving Repr, DecidableEq

/-- Take apart the bits of a number with `mantissaBits` stored bits and
`exponentBits` bits of exponent. -/
def Value.ofBits (mantissaBits exponentBits : Nat) (bits : Nat) : Value :=
  let hidden := Nat.pow 2 mantissaBits
  let fraction := bits % hidden
  let biased := bits / hidden % Nat.pow 2 exponentBits
  let negative := bits / Nat.pow 2 (mantissaBits + exponentBits) % 2 == 1
  let bias : Int := Nat.pow 2 (exponentBits - 1) - 1 + mantissaBits
  if biased == Nat.pow 2 exponentBits - 1 then
    if fraction == 0 then .infinite negative else .nan
  else if biased == 0 then .finite negative fraction (1 - bias) false
  else .finite negative (hidden + fraction) (biased - bias) (fraction == 0 && biased > 1)

def Value.ofFloat (x : Float) : Value := .ofBits 52 11 x.toBits.toNat

def Value.ofFloat32 (x : Float32) : Value := .ofBits 23 8 x.toBits.toNat

/-- `mantissa · 2 ^ exponent` as numerator and denominator. -/
def scaled (mantissa : Nat) (exponent : Int) : Nat × Nat :=
  if 0 ≤ exponent then (mantissa * Nat.pow 2 exponent.toNat, 1) else (mantissa, Nat.pow 2 (-exponent).toNat)

/-! ### Widths -/

open Float.Model

/-- The same number in double precision. -/
def widen (x : Float32) : Float :=
  match x.toModel.unpack with
  | .finite sign mantissa exponent _ => .ofModel (Float.Model.pack (.round .binary64 sign mantissa exponent))
  | other => .ofModel (Float.Model.pack other)

/-- The number to the nearest in single precision. -/
def narrow (x : Float) : Float32 :=
  match x.toModel.unpack with
  | .finite sign mantissa exponent _ => .ofModel (Float32.Model.pack (.round .binary32 sign mantissa exponent))
  | other => .ofModel (Float32.Model.pack other)

end CodeAtlas.Decimal
