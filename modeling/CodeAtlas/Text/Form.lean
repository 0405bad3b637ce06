import CodeAtlas.Text.Chars

/-! Form data in the query of a web address: names and values, joined by ampersands.

A plus stands for a blank, and a percent sign with two hexadecimal digits for a
byte. The bytes are read as UTF-8; what is not UTF-8 becomes replacement
characters, one for each sequence that breaks off. -/
namespace CodeAtlas.Form

/-! ### Bytes to text -/

/-- A sequence that still lacks bytes: how many, between which bounds the next one
lies, and what is known of the character. -/
structure Unfinished where
  missing : Nat
  least : UInt8 := 0x80
  greatest : UInt8 := 0xBF
  code : Nat

/-- What a first byte begins: a character, a longer sequence, or nothing. -/
def lead (b : UInt8) : Char ⊕ Option Unfinished :=
  let n := b.toNat
  if n < 0x80 then .inl (Char.ofNat n)
  else if n < 0xC2 then .inr none
  else if n < 0xE0 then .inr (some { missing := 1, code := n - 0xC0 })
  else if n == 0xE0 then .inr (some { missing := 2, least := 0xA0, code := 0 })
  else if n == 0xED then .inr (some { missing := 2, greatest := 0x9F, code := 0xD })
  else if n < 0xF0 then .inr (some { missing := 2, code := n - 0xE0 })
  else if n == 0xF0 then .inr (some { missing := 3, least := 0x90, code := 0 })
  else if n < 0xF4 then .inr (some { missing := 3, code := n - 0xF0 })
  else if n == 0xF4 then .inr (some { missing := 3, greatest := 0x8F, code := 4 })
  else .inr none

def replacement : Char := '\uFFFD'

/-- How far a text has been read; the characters are in reverse. -/
structure Reading where
  chars : List Char := []
  open? : Option Unfinished := none

def Reading.begin (r : Reading) (b : UInt8) : Reading :=
  match lead b with
  | .inl c => { chars := c :: r.chars }
  | .inr (some u) => { chars := r.chars, open? := some u }
  | .inr none => { chars := replacement :: r.chars }

def Reading.next (r : Reading) (b : UInt8) : Reading :=
  match r.open? with
  | none => r.begin b
  | some u =>
    if u.least ≤ b && b ≤ u.greatest then
      let code := u.code * 64 + (b.toNat - 0x80)
      if u.missing == 1 then { chars := Char.ofNat code :: r.chars }
      else { r with open? := some { missing := u.missing - 1, code } }
    else Reading.begin { chars := replacement :: r.chars } b

def textOfBytes (bytes : List UInt8) : String :=
  let r := bytes.foldl Reading.next {}
  let chars := if r.open?.isSome then replacement :: r.chars else r.chars
  String.ofList chars.reverse

/-! ### Fields -/

def hexValue? (b : UInt8) : Option UInt8 :=
  if 0x30 ≤ b && b ≤ 0x39 then some (b - 0x30)
  else if 0x41 ≤ b && b ≤ 0x46 then some (b - 0x41 + 10)
  else if 0x61 ≤ b && b ≤ 0x66 then some (b - 0x61 + 10)
  else none

/-- The bytes that are meant; a percent sign without two digits stands for itself. -/
def unescape : List UInt8 → List UInt8
  | [] => []
  | 0x2B :: rest => 0x20 :: unescape rest
  | 0x25 :: a :: b :: rest =>
    match hexValue? a, hexValue? b with
    | some x, some y => (x * 16 + y) :: unescape rest
    | _, _ => 0x25 :: unescape (a :: b :: rest)
  | c :: rest => c :: unescape rest

def decode (text : String) : String := textOfBytes (unescape text.toUTF8.toList)

/-- One field; without an equals sign its value is empty. -/
def field (piece : List Char) : String × String :=
  let name := piece.takeWhile (· != '=')
  (decode (String.ofList name), decode (String.ofList (piece.drop (name.length + 1))))

def fields (query : String) : List (String × String) :=
  ((Text.splitChars '&' query.toList).filter (!·.isEmpty)).map field

/-- Why a value cannot be read. -/
inductive Fault where
  | missing (name : String)
  | repeated (name : String)
  | malformed (name : String)
deriving DecidableEq, Repr

/-- The value of a field that may be given once. -/
def value? (fields : List (String × String)) (name : String) : Except Fault (Option String) :=
  match fields.filter (·.1 == name) with
  | [] => .ok none
  | [(_, v)] => .ok (some v)
  | _ => .error (.repeated name)

def required (fields : List (String × String)) (name : String) : Except Fault String := do
  match ← value? fields name with
  | some v => return v
  | none => .error (.missing name)

/-- A flag; it is off when it is not given. -/
def flag (fields : List (String × String)) (name : String) : Except Fault Bool := do
  match ← value? fields name with
  | none | some "false" => return false
  | some "true" => return true
  | some _ => .error (.malformed name)

end CodeAtlas.Form
