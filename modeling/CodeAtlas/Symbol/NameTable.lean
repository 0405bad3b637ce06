import CodeAtlas.KeyMap
import CodeAtlas.Text.Case

/-! The name table: where a name is defined.

Definitions are found by lowercase name, in the order they were added. A second
map, from files to the lowercase names defined in them, lets a file be taken out
without a search through the table. -/
namespace CodeAtlas

/-- One definition of a name. -/
structure SymbolRef where
  uri : String
  id : String
deriving DecidableEq, Inhabited, Repr

structure NameTable where
  byName : KeyMap (List SymbolRef) := {}
  byFile : KeyMap (List String) := {}

namespace NameTable

/-- Add `a` to the list under a key. -/
def addTo {α : Type} (m : KeyMap (List α)) (key : String) (a : α) : KeyMap (List α) :=
  m.insert key ((m.find? key).getD [] ++ [a])

def insert (t : NameTable) (name id uri : String) : NameTable :=
  let key := Text.lowercase name
  { byName := addTo t.byName key ⟨uri, id⟩, byFile := addTo t.byFile uri key }

/-- Every definition of a name, whatever its case. -/
def lookup (t : NameTable) (name : String) : List SymbolRef :=
  (t.byName.find? (Text.lowercase name)).getD []

/-- Take a file's definitions out of one list, and the list out of the map when
nothing is left of it. -/
def dropFrom (uri : String) (m : KeyMap (List SymbolRef)) (name : String) : KeyMap (List SymbolRef) :=
  match m.find? name with
  | none => m
  | some refs =>
    let kept := refs.filter (·.uri != uri)
    if kept.isEmpty then m.erase name else m.insert name kept

/-- Remove the definitions of one file. -/
def removeFile (t : NameTable) (uri : String) : NameTable :=
  match t.byFile.find? uri with
  | none => t
  | some names => { byName := names.foldl (dropFrom uri) t.byName, byFile := t.byFile.erase uri }

/-- The number of distinct names. -/
def size (t : NameTable) : Nat := t.byName.size

def isEmpty (t : NameTable) : Bool := t.byName.entries.isEmpty

end NameTable

end CodeAtlas
