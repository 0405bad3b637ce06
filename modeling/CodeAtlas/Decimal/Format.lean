import CodeAtlas.Decimal.Shortest

/-! Two ways of writing a float, and rounding to fixed places.

`plain` is for messages: never an exponent, and no point for a whole number.
`Layout` is for data: always a point or an exponent, positional in a window of
magnitudes. -/
namespace CodeAtlas.Decimal

def zeros (n : Nat) : String := String.ofList (List.replicate n '0')

/-- Positional text of `digits · 10 ^ exponent`: the digits before the point and
those after it. -/
def Digits.positional (d : Digits) : String × String :=
  let text := toString d.digits
  if 0 ≤ d.exponent then (text ++ zeros d.exponent.toNat, "")
  else
    let after := (-d.exponent).toNat
    if text.length ≤ after then ("0", zeros (after - text.length) ++ text)
    else (String.ofList (text.toList.take (text.length - after)),
      String.ofList (text.toList.drop (text.length - after)))

def Value.plain : Value → String
  | .nan => "NaN"
  | .infinite negative => if negative then "-inf" else "inf"
  | .finite negative m e narrow =>
    let (whole, after) := (shortest m e narrow).positional
    (if negative then "-" else "") ++ whole ++ (if after.isEmpty then "" else "." ++ after)

/-- The float as it stands in a message. -/
def plain (x : Float) : String := (Value.ofFloat x).plain

/-- How numbers are written in data. -/
structure Layout where
  /-- Positional from this power of ten on. -/
  smallest : Int
  /-- Positional below this power of ten. -/
  largest : Int
  /-- Written before a non-negative exponent. -/
  plus : String

/-- Numbers in JSON text are positional from `1e-5` up to below `1e16`. -/
def jsonLayout : Layout := ⟨-5, 16, "+"⟩

/-- Text of a finite number; none for the others. -/
def Value.text? (layout : Layout) : Value → Option String
  | .nan => none
  | .infinite _ => none
  | .finite negative m e narrow =>
    let sign := if negative then "-" else ""
    let d := shortest m e narrow
    let digits := toString d.digits
    let lead : Int := d.exponent + digits.length - 1
    if d.digits == 0 || (layout.smallest ≤ lead && lead < layout.largest) then
      let (whole, after) := d.positional
      some (sign ++ whole ++ "." ++ (if after.isEmpty then "0" else after))
    else
      let first := String.ofList (digits.toList.take 1)
      let rest := String.ofList (digits.toList.drop 1)
      let mark := if lead < 0 then "e-" else "e" ++ layout.plus
      some (sign ++ first ++ (if rest.isEmpty then "" else "." ++ rest) ++ mark ++ toString lead.natAbs)

/-- `num / den` to the nearest whole number, a tie to the even one. -/
def roundDiv (num den : Nat) : Nat :=
  let q := num / den
  let twice := 2 * (num % den)
  if twice > den || (twice == den && q % 2 == 1) then q + 1 else q

/-- The value times `10 ^ places`, rounded to a whole number. -/
def fixed (places : Nat) (mantissa : Nat) (exponent : Int) : Nat :=
  let (num, den) := scaled mantissa exponent
  roundDiv (num * Nat.pow 10 places) den

/-- The float with exactly `places` digits after the point. -/
def fixedText (places : Nat) (x : Float) : String :=
  match Value.ofFloat x with
  | .finite negative m e _ =>
    let n := fixed places m e
    let after := toString (n % Nat.pow 10 places)
    (if negative then "-" else "") ++ toString (n / Nat.pow 10 places) ++
      (if places == 0 then "" else "." ++ zeros (places - after.length) ++ after)
  | v => v.plain

end CodeAtlas.Decimal
