import CodeAtlas.Json.Parser
import CodeAtlas.Text.Chars

/-! Numbers and moments of TOML.

They are read from a word, the longest run of characters that may stand in one.
Underscores may stand between digits. Whole numbers have 64 bits with a sign. -/
namespace CodeAtlas.Toml

def isWordChar (c : Char) : Bool :=
  Text.isAsciiAlphanumeric c || c == '_' || c == '+' || c == '-' || c == '.' || c == ':'

/-! ### Digits -/

/-- Digits without the underscores between them. -/
def digitRun? (isDigit : Char → Bool) : List Char → Option (List Char)
  | [] => none
  | [c] => if isDigit c then some [c] else none
  | c :: '_' :: rest => if isDigit c then (digitRun? isDigit rest).map (c :: ·) else none
  | c :: rest => if isDigit c then (digitRun? isDigit rest).map (c :: ·) else none

/-- Decimal digits, with no zero before other digits. -/
def wholeDigits? (cs : List Char) : Option (List Char) :=
  match digitRun? Json.isDigit cs with
  | some ('0' :: _ :: _) => none
  | other => other

/-- A sign, if there is one: is it a minus, and what follows it? -/
def signed (cs : List Char) : Bool × List Char :=
  match cs with
  | '-' :: rest => (true, rest)
  | '+' :: rest => (false, rest)
  | _ => (false, cs)

def inRange? (n : Int) : Option Int :=
  if Int64.minValue.toInt ≤ n && n ≤ Int64.maxValue.toInt then some n else none

/-- A number in another base. -/
def based? (base : Nat) (cs : List Char) : Option Int := do
  let ds ← digitRun? (fun c => ((Json.hexValue? c).map fun v => decide (v < base)).getD false) cs
  inRange? (ds.foldl (fun n d => n * base + (Json.hexValue? d).getD 0) 0 : Nat)

def integer? (cs : List Char) : Option Int :=
  match cs with
  | '0' :: 'x' :: rest => based? 16 rest
  | '0' :: 'o' :: rest => based? 8 rest
  | '0' :: 'b' :: rest => based? 2 rest
  | _ => do
    let (negative, cs) := signed cs
    let n : Int := Json.digitsOf (← wholeDigits? cs)
    inRange? (if negative then -n else n)

/-! ### Fractions -/

/-- An exponent after its mark. -/
def exponentOf? (cs : List Char) : Option Int := do
  let (negative, cs) := signed cs
  let n : Int := Json.digitsOf (← digitRun? Json.isDigit cs)
  return if negative then -n else n

/-- A decimal number with a point or an exponent, or both. What is too large above is
refused. -/
def decimal? (negative : Bool) (cs : List Char) : Option Float := do
  let mantissa := cs.takeWhile fun c => c != 'e' && c != 'E'
  let marked := cs.drop mantissa.length
  let whole := mantissa.takeWhile (· != '.')
  let pointed := mantissa.drop whole.length
  if marked.isEmpty && pointed.isEmpty then none
  else
    let whole ← wholeDigits? whole
    let after ← if pointed.isEmpty then some [] else digitRun? Json.isDigit (pointed.drop 1)
    let exponent ← if marked.isEmpty then some 0 else exponentOf? (marked.drop 1)
    let x := Json.fraction negative whole after exponent
    if x.isInf && !negative then none else some x

def float? (cs : List Char) : Option Float :=
  let (negative, body) := signed cs
  match body with
  | ['i', 'n', 'f'] => some (if negative then -1.0 / 0.0 else 1.0 / 0.0)
  | ['n', 'a', 'n'] => some (0.0 / 0.0)
  | _ => decimal? negative body

/-! ### Moments -/

/-- So many digits, read as a number within bounds. -/
def fixedDigits? (count least greatest : Nat) (cs : List Char) : Option (Nat × List Char) :=
  let ds := cs.take count
  let n := Json.digitsOf ds
  if ds.length == count && ds.all Json.isDigit && least ≤ n && n ≤ greatest then some (n, cs.drop count)
  else none

def expect? (c : Char) : List Char → Option (List Char)
  | d :: rest => if c == d then some rest else none
  | [] => none

def daysIn (year month : Nat) : Nat :=
  if month == 2 then
    if (year % 4 == 0 && year % 100 != 0) || year % 400 == 0 then 29 else 28
  else if month == 4 || month == 6 || month == 9 || month == 11 then 30
  else 31

/-- A day of the calendar. -/
def date? (cs : List Char) : Option (String × List Char) := do
  let (year, rest) ← fixedDigits? 4 0 9999 cs
  let (month, rest) ← fixedDigits? 2 1 12 (← expect? '-' rest)
  let (_, rest) ← fixedDigits? 2 1 (daysIn year month) (← expect? '-' rest)
  return (String.ofList (cs.take 10), rest)

/-- The digits after the point of a second: at most nine, and no zeros at the end. -/
def secondFraction (ds : List Char) : String :=
  let kept := ((ds.take 9).reverse.dropWhile (· == '0')).reverse
  if kept.isEmpty then "" else "." ++ String.ofList kept

/-- A time of day. -/
def time? (cs : List Char) : Option (String × List Char) := do
  let (_, rest) ← fixedDigits? 2 0 23 cs
  let (_, rest) ← fixedDigits? 2 0 59 (← expect? ':' rest)
  let (_, rest) ← fixedDigits? 2 0 60 (← expect? ':' rest)
  let text := String.ofList (cs.take 8)
  match rest with
  | '.' :: after =>
    let ds := after.takeWhile Json.isDigit
    if ds.isEmpty then none else some (text ++ secondFraction ds, after.drop ds.length)
  | _ => some (text, rest)

/-- The distance to universal time; none is written where none is given. -/
def zone? (cs : List Char) : Option (String × List Char) :=
  match cs with
  | 'Z' :: rest | 'z' :: rest => some ("Z", rest)
  | c :: after =>
    if c == '+' || c == '-' then do
      let (_, rest) ← fixedDigits? 2 0 23 after
      let (_, rest) ← fixedDigits? 2 0 59 (← expect? ':' rest)
      return (String.ofList (cs.take 6), rest)
    else some ("", cs)
  | [] => some ("", cs)

/-- A date, a time, or both; a zone only with both. -/
def moment? (cs : List Char) : Option (String × List Char) :=
  match date? cs with
  | none => time? cs
  | some (date, rest) =>
    match rest with
    | c :: after =>
      if c == 'T' || c == 't' || c == ' ' then
        match time? after with
        | none => if c == ' ' then some (date, rest) else none
        | some (time, rest) => do
          let (zone, rest) ← zone? rest
          return (date ++ "T" ++ time ++ zone, rest)
      else some (date, rest)
    | [] => some (date, rest)

/-- The name of the only field of a moment. -/
def momentField : String := "$__toml_private_datetime"

/-! ### Words -/

/-- A number, a truth value, or a moment. -/
def scalar? (cs : List Char) : Option (Json × List Char) :=
  match moment? cs with
  | some (text, rest) =>
    match rest with
    | c :: _ => if isWordChar c then none else some (.obj [(momentField, .str text)], rest)
    | [] => some (.obj [(momentField, .str text)], rest)
  | none =>
    let word := cs.takeWhile isWordChar
    let rest := cs.drop word.length
    match word with
    | ['t', 'r', 'u', 'e'] => some (.bool true, rest)
    | ['f', 'a', 'l', 's', 'e'] => some (.bool false, rest)
    | _ =>
      match integer? word, float? word with
      | some n, _ => some (.int n, rest)
      | none, some x => some (.float x, rest)
      | none, none => none

end CodeAtlas.Toml
