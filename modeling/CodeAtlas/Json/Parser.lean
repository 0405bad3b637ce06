import CodeAtlas.Json.Value

/-! Reading JSON text.

Every step consumes a character, so the length of the text bounds the work. A
whole number that fits 64 bits, signed or unsigned, stays whole; every other
number is read to the nearest double. Of two fields with one name the later
counts. -/
namespace CodeAtlas.Json

def isBlank (c : Char) : Bool := c == ' ' || c == '\n' || c == '\r' || c == '\t'

def skipBlanks (cs : List Char) : List Char := cs.dropWhile isBlank

def hexValue? (c : Char) : Option Nat :=
  if '0' ≤ c && c ≤ '9' then some (c.toNat - 48)
  else if 'a' ≤ c && c ≤ 'f' then some (c.toNat - 87)
  else if 'A' ≤ c && c ≤ 'F' then some (c.toNat - 55)
  else none

/-- Four hexadecimal digits. -/
def hexUnit? : List Char → Option (Nat × List Char)
  | a :: b :: c :: d :: rest => do
    let a ← hexValue? a
    let b ← hexValue? b
    let c ← hexValue? c
    let d ← hexValue? d
    some (((a * 16 + b) * 16 + c) * 16 + d, rest)
  | _ => none

/-- The character after a backslash and a `u`, which may take a pair of units. -/
def unicodeEscape? (cs : List Char) : Option (Char × List Char) := do
  let (u, rest) ← hexUnit? cs
  if 0xDC00 ≤ u && u ≤ 0xDFFF then none
  else if 0xD800 ≤ u && u ≤ 0xDBFF then
    match rest with
    | '\\' :: 'u' :: rest =>
      let (v, rest) ← hexUnit? rest
      if 0xDC00 ≤ v && v ≤ 0xDFFF then
        some (Char.ofNat (0x10000 + (u - 0xD800) * 0x400 + (v - 0xDC00)), rest)
      else none
    | _ => none
  else some (Char.ofNat u, rest)

def simpleEscape? (c : Char) : Option Char :=
  match c with
  | '"' => some '"'
  | '\\' => some '\\'
  | '/' => some '/'
  | 'b' => some (Char.ofNat 8)
  | 'f' => some (Char.ofNat 12)
  | 'n' => some '\n'
  | 'r' => some '\r'
  | 't' => some '\t'
  | _ => none

/-- The rest of a string, after its opening quote. -/
def stringRest? : Nat → List Char → List Char → Option (String × List Char)
  | 0, _, _ => none
  | fuel + 1, acc, cs =>
    match cs with
    | [] => none
    | '"' :: rest => some (String.ofList acc.reverse, rest)
    | '\\' :: 'u' :: rest => do
      let (c, rest) ← unicodeEscape? rest
      stringRest? fuel (c :: acc) rest
    | '\\' :: c :: rest => do
      let c ← simpleEscape? c
      stringRest? fuel (c :: acc) rest
    | c :: rest => if c.toNat < 32 then none else stringRest? fuel (c :: acc) rest

def digitsOf (cs : List Char) : Nat := cs.foldl (fun n c => n * 10 + (c.toNat - 48)) 0

def isDigit (c : Char) : Bool := '0' ≤ c && c ≤ '9'

/-- The value of a number with a point or an exponent. -/
def fraction (negative : Bool) (whole after : List Char) (exponent : Int) : Float :=
  let mantissa := digitsOf (whole ++ after)
  let scale := exponent - after.length
  let x :=
    if mantissa == 0 || scale + (whole.length + after.length) < -400 then 0.0
    else Float.ofScientific mantissa (scale < 0) scale.natAbs
  if negative then -x else x

/-- An exponent: a mark, a sign, digits. -/
def exponent? (cs : List Char) : Option (Int × List Char) :=
  let (negative, cs) :=
    match cs with
    | '-' :: rest => (true, rest)
    | '+' :: rest => (false, rest)
    | _ => (false, cs)
  let ds := cs.takeWhile isDigit
  if ds.isEmpty then none
  else
    let n : Int := digitsOf ds
    some (if negative then -n else n, cs.dropWhile isDigit)

/-- A number. The part before the point has no leading zero. -/
def number? (cs : List Char) : Option (Json × List Char) := do
  let (negative, cs) :=
    match cs with
    | '-' :: rest => (true, rest)
    | _ => (false, cs)
  let whole := cs.takeWhile isDigit
  let rest := cs.dropWhile isDigit
  if whole.isEmpty || (whole.length > 1 && whole.head? == some '0') then none
  else
    let (after, rest, hasPoint) :=
      match rest with
      | '.' :: r => (r.takeWhile isDigit, r.dropWhile isDigit, true)
      | _ => ([], rest, false)
    if hasPoint && after.isEmpty then none
    else
      let scaled := match rest with
        | 'e' :: r => some r
        | 'E' :: r => some r
        | _ => none
      match scaled with
      | some r =>
        let (e, rest) ← exponent? r
        let x := fraction negative whole after e
        if x.isFinite then some (.float x, rest) else none
      | none =>
        let n : Int := digitsOf whole
        if hasPoint then some (.float (fraction negative whole after 0), rest)
        else if negative then
          if n == 0 then some (.float (-0.0), rest)
          else if Int64.minValue.toInt ≤ -n then some (.int (-n), rest)
          else some (.float (fraction true whole [] 0), rest)
        else if n < UInt64.size then some (.int n, rest)
        else some (.float (fraction false whole [] 0), rest)

def literal? (word : List Char) (value : Json) (cs : List Char) : Option (Json × List Char) :=
  if cs.take word.length == word then some (value, cs.drop word.length) else none

mutual

/-- A value, after any blanks. -/
def value? : Nat → List Char → Option (Json × List Char)
  | 0, _ => none
  | fuel + 1, cs =>
    match skipBlanks cs with
    | [] => none
    | '"' :: rest => do
      let (s, rest) ← stringRest? (rest.length + 1) [] rest
      some (.str s, rest)
    | '[' :: rest =>
      match skipBlanks rest with
      | ']' :: rest => some (.arr [], rest)
      | rest => do
        let (items, rest) ← items? fuel rest
        some (.arr items, rest)
    | '\x7b' :: rest =>
      match skipBlanks rest with
      | '\x7d' :: rest => some (.obj [], rest)
      | rest => do
        let (fields, rest) ← fields? fuel [] rest
        some (.obj fields, rest)
    | 'n' :: rest => literal? ['u', 'l', 'l'] .null rest
    | 't' :: rest => literal? ['r', 'u', 'e'] (.bool true) rest
    | 'f' :: rest => literal? ['a', 'l', 's', 'e'] (.bool false) rest
    | rest => number? rest

/-- The items of an array, up to and with its closing bracket. -/
def items? : Nat → List Char → Option (List Json × List Char)
  | 0, _ => none
  | fuel + 1, cs => do
    let (j, rest) ← value? fuel cs
    match skipBlanks rest with
    | ',' :: rest =>
      let (more, rest) ← items? fuel rest
      some (j :: more, rest)
    | ']' :: rest => some ([j], rest)
    | _ => none

/-- The fields of an object, up to and with its closing brace. -/
def fields? : Nat → List (String × Json) → List Char → Option (List (String × Json) × List Char)
  | 0, _, _ => none
  | fuel + 1, acc, cs =>
    match skipBlanks cs with
    | '"' :: rest => do
      let (k, rest) ← stringRest? (rest.length + 1) [] rest
      match skipBlanks rest with
      | ':' :: rest =>
        let (j, rest) ← value? fuel rest
        let acc := setField k j acc
        match skipBlanks rest with
        | ',' :: rest => fields? fuel acc rest
        | '\x7d' :: rest => some (acc, rest)
        | _ => none
      | _ => none
    | _ => none

end

/-- Read a whole text as one value. -/
def parse? (text : String) : Option Json := do
  let cs := text.toList
  let (j, rest) ← value? (2 * cs.length + 2) cs
  if (skipBlanks rest).isEmpty then some j else none

end CodeAtlas.Json
