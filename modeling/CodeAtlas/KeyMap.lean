/-! Maps from texts, in the order of their keys. -/
namespace CodeAtlas

/-- A map whose entries are kept in increasing order of their keys. -/
structure KeyMap (α : Type) where
  entries : List (String × α) := []

namespace KeyMap

variable {α β : Type}

def empty : KeyMap α := {}

def find? (m : KeyMap α) (key : String) : Option α := m.entries.lookup key

def contains (m : KeyMap α) (key : String) : Bool := (m.find? key).isSome

def keys (m : KeyMap α) : List String := m.entries.map (·.1)

def values (m : KeyMap α) : List α := m.entries.map (·.2)

def size (m : KeyMap α) : Nat := m.entries.length

/-- Put an entry where it belongs, in place of an old one. -/
def insertEntry (key : String) (value : α) : List (String × α) → List (String × α)
  | [] => [(key, value)]
  | (k, v) :: rest =>
    if key < k then (key, value) :: (k, v) :: rest
    else if key == k then (key, value) :: rest
    else (k, v) :: insertEntry key value rest

def insert (m : KeyMap α) (key : String) (value : α) : KeyMap α :=
  ⟨insertEntry key value m.entries⟩

def erase (m : KeyMap α) (key : String) : KeyMap α := ⟨m.entries.filter (·.1 != key)⟩

/-- The entries whose keys satisfy `keep`. -/
def filterKeys (m : KeyMap α) (keep : String → Bool) : KeyMap α :=
  ⟨m.entries.filter fun e => keep e.1⟩

/-- The values of the entries whose keys satisfy `keep`, end to end. -/
def collect (m : KeyMap (List α)) (keep : String → Bool) : List α :=
  (m.filterKeys keep).values.flatten

end KeyMap

end CodeAtlas
