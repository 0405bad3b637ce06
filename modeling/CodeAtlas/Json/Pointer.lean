import CodeAtlas.Json.Value
import CodeAtlas.Text.Chars

/-! Pointers to a part of a JSON value: the keys on the way, each after a slash. -/
namespace CodeAtlas.Json

/-- A key as it is meant: a tilde and a digit stand for a tilde or a slash. -/
def unescapeKey : List Char → List Char
  | '~' :: '0' :: rest => '~' :: unescapeKey rest
  | '~' :: '1' :: rest => '/' :: unescapeKey rest
  | c :: rest => c :: unescapeKey rest
  | [] => []

/-- The field or item under a key. -/
def child? (j : Json) (key : String) : Option Json :=
  match j with
  | .obj fields => fields.lookup key
  | .arr items => key.toNat?.bind fun n => items[n]?
  | _ => none

/-- The part a pointer leads to, if it is there. -/
def pointed? (j : Json) (pointer : String) : Option Json :=
  (((Text.splitChars '/' pointer.toList).drop 1).map fun key => String.ofList (unescapeKey key)).foldlM child? j

end CodeAtlas.Json
