import CodeAtlas.Query.Model

/-! A bounded cache of query results.

When it is full, the entry that has been there longest makes room. Neither a look-up
nor a new value under a key that is held changes which one that is. -/
namespace CodeAtlas

structure ResultCache where
  capacity : Nat
  entries : List (String × QueryResult) := []

namespace ResultCache

/-- There is always room for one. -/
def ofCapacity (capacity : Nat) : ResultCache := { capacity := max capacity 1 }

def get? (c : ResultCache) (key : String) : Option QueryResult := c.entries.lookup key

def size (c : ResultCache) : Nat := c.entries.length

def isEmpty (c : ResultCache) : Bool := c.entries.isEmpty

def contains (c : ResultCache) (key : String) : Bool := c.entries.any (·.1 == key)

def insert (c : ResultCache) (key : String) (result : QueryResult) : ResultCache :=
  if c.contains key then
    { c with entries := c.entries.map fun e => if e.1 == key then (key, result) else e }
  else
    let kept := if c.entries.length ≥ c.capacity then c.entries.drop 1 else c.entries
    { c with entries := kept ++ [(key, result)] }

def clear (c : ResultCache) : ResultCache := { c with entries := [] }

end ResultCache

end CodeAtlas
