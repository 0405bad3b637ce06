import CodeAtlas.Decimal.Format

/-! JSON values.

Whole numbers and fractions are kept apart, because they are written apart, and so
are fractions of single precision, which take fewer digits. The fields of an object
keep the order they were given in. -/
namespace CodeAtlas

inductive Json where
  | null
  | bool (b : Bool)
  | int (n : Int)
  | float (x : Float)
  | single (x : Float32)
  | str (s : String)
  | arr (items : List Json)
  | obj (fields : List (String × Json))
deriving Inhabited

namespace Json

/-- The value of a field. -/
def field? (name : String) : Json → Option Json
  | .obj fields => fields.lookup name
  | _ => none

/-- Replace a field where it stands, or add it at the end. -/
def setField (name : String) (value : Json) : List (String × Json) → List (String × Json)
  | [] => [(name, value)]
  | (k, v) :: rest => if k == name then (k, value) :: rest else (k, v) :: setField name value rest

/-- A fraction; the numbers JSON cannot write become null. -/
def ofFloat (x : Float) : Json := if x.isFinite then .float x else .null

/-- A fraction of single precision, if JSON can write it. -/
def ofSingle (x : Float32) : Json := if x.isFinite then .single x else .null

def strings (xs : List String) : Json := .arr (xs.map .str)

/-- An object of the fields that are there. -/
def object (fields : List (Option (String × Json))) : Json := .obj (fields.filterMap id)

end Json

end CodeAtlas
