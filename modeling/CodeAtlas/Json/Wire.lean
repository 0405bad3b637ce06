import CodeAtlas.Decimal.Binary
import CodeAtlas.Json.Value

/-! Values with a JSON form.

A record is written as an object and read from one by field name, whatever other
fields it has; it is also read from an array that lists its fields in order. A
field may be required, may have a default when it is missing, or may be missing
or null. -/
namespace CodeAtlas

/-- A type with a JSON form. -/
class Wire (α : Type) where
  encode : α → Json
  decode? : Json → Option α

export Wire (encode decode?)

namespace Json

/-- Where the fields of a record come from. -/
inductive Source where
  | named (fields : List (String × Json))
  | positional (items : List Json)

/-- Reads fields one after the other. -/
abbrev Reader := StateT Source Option

variable {α : Type} [Wire α]

/-- The raw value of the next field. -/
def nextField (name : String) : Reader (Option Json) := fun source =>
  match source with
  | .named fields => some (fields.lookup name, source)
  | .positional [] => some (none, source)
  | .positional (j :: rest) => some (some j, .positional rest)

/-- A field that must be there. -/
def required (name : String) : Reader α := do
  match ← nextField name with
  | some j => (decode? j : Option α)
  | none => none

/-- A field with a value of its own when it is missing. -/
def withDefault (name : String) (fallback : α) : Reader α := do
  match ← nextField name with
  | some j => (decode? j : Option α)
  | none => pure fallback

/-- A field that may be missing or null. -/
def optional (name : String) : Reader (Option α) := do
  match ← nextField name with
  | some .null => pure none
  | some j => some <$> (decode? j : Option α)
  | none => pure none

/-- Read a record from an object or an array. -/
def record? {α : Type} (read : Reader α) : Json → Option α
  | .obj fields => (read (.named fields)).map (·.1)
  | .arr items =>
    match read (.positional items) with
    | some (a, .positional []) => some a
    | _ => none
  | _ => none

/-- The name of a constant of an enumeration: a string, or an object of one field
that is null. -/
def tag? : Json → Option String
  | .str s => some s
  | .obj [(s, .null)] => some s
  | _ => none

/-- Read a constant of an enumeration by its name. -/
def named? {α : Type} (all : List α) (name : α → String) (j : Json) : Option α := do
  let s ← tag? j
  all.find? fun a => name a == s

def nat? : Json → Option Nat
  | .int n => if 0 ≤ n then some n.toNat else none
  | _ => none

/-- A field that is always written. -/
def put (name : String) (a : α) : Option (String × Json) := some (name, encode a)

/-- A field that is written when there is something to write. -/
def putSome (name : String) (a : Option α) : Option (String × Json) := a.map fun a => (name, encode a)

end Json

open Json

instance : Wire Json := ⟨id, some⟩

instance : Wire String where
  encode := .str
  decode?
    | .str s => some s
    | _ => none

instance : Wire Bool where
  encode := .bool
  decode?
    | .bool b => some b
    | _ => none

instance : Wire UInt8 where
  encode n := .int n.toNat
  decode? j := do
    let n ← nat? j
    if n < UInt8.size then some n.toUInt8 else none

instance : Wire UInt32 where
  encode n := .int n.toNat
  decode? j := do
    let n ← nat? j
    if n < UInt32.size then some n.toUInt32 else none

/-- A count. Text has no whole number past 64 bits, so none is refused here. -/
instance : Wire Nat where
  encode n := .int n
  decode? := nat?

instance : Wire Int64 where
  encode n := .int n.toInt
  decode?
    | .int n => if Int64.minValue.toInt ≤ n && n ≤ Int64.maxValue.toInt then some (Int64.ofInt n) else none
    | _ => none

/-- A fraction may be written without a point. -/
instance : Wire Float where
  encode := ofFloat
  decode?
    | .float x => some x
    | .int n => some (Float.ofInt n)
    | _ => none

/-- A fraction of single precision is sent as one of double precision. -/
instance : Wire Float32 where
  encode x := ofFloat (Decimal.widen x)
  decode?
    | .float x => some (Decimal.narrow x)
    | .int n => some (Float32.ofInt n)
    | _ => none

instance {α : Type} [Wire α] : Wire (Option α) where
  encode
    | some a => encode a
    | none => .null
  decode?
    | .null => some none
    | j => some <$> decode? j

instance {α : Type} [Wire α] : Wire (List α) where
  encode xs := .arr (xs.map encode)
  decode?
    | .arr items => items.mapM decode?
    | _ => none

end CodeAtlas
