import CodeAtlas.Json.Value

/-! Tables of TOML while they are built.

A table is defined once: by its header, by dotted keys, or in line. A table that is
only on the way to others may get its header later. Dotted keys may go through
tables that dotted keys made, and through no others. -/
namespace CodeAtlas.Toml

inductive Node where
  /-- A value, which includes arrays and tables in line. -/
  | value (j : Json)
  /-- A table: does it still lack a header, did dotted keys make it, and what is in it? -/
  | table (implicit dotted : Bool) (entries : List (String × Node))
  /-- Tables in a row under one header; the last is still open. -/
  | tables (done : List (List (String × Node))) (last : List (String × Node))

namespace Node

def emptyTable (implicit dotted : Bool) : Node := .table implicit dotted []

/-- Replace an entry where it stands, or add it at the end. -/
def put (key : String) (node : Node) : List (String × Node) → List (String × Node)
  | [] => [(key, node)]
  | (k, n) :: rest => if k == key then (k, node) :: rest else (k, n) :: put key node rest

/-- A change of what is in a table; it is told whether dotted keys made the table. -/
abbrev Change := Bool → List (String × Node) → Option (List (String × Node))

/-- Make a change at the end of a path, in tables that are made where they are missing. -/
def alongPath (dotted : Bool) (change : Change) : List String → Change
  | [], own, entries => change own entries
  | key :: rest, _, entries =>
    match entries.lookup key with
    | none => (alongPath dotted change rest dotted []).map fun inner =>
        put key (.table true dotted inner) entries
    | some (.value _) => none
    | some (.tables done last) => (alongPath dotted change rest false last).map fun last =>
        put key (.tables done last) entries
    | some (.table implicit own inner) =>
      if dotted && !implicit then none
      else (alongPath dotted change rest own inner).map fun inner =>
        put key (.table implicit own inner) entries

/-- Open a table under its header. -/
def openTable (key : String) : Change := fun _ entries =>
  match entries.lookup key with
  | none => some (put key (emptyTable false false) entries)
  | some (.table true false inner) => some (put key (.table false false inner) entries)
  | some _ => none

/-- Open one more of the tables in a row. -/
def openNext (key : String) : Change := fun _ entries =>
  match entries.lookup key with
  | none => some (put key (.tables [] []) entries)
  | some (.tables done last) => some (put key (.tables (done ++ [last]) []) entries)
  | some _ => none

/-- Put a value into the table that the dotted part before its key leads to. -/
def addValue (viaDots : Bool) (key : String) (j : Json) : Change := fun dotted entries =>
  if dotted != viaDots then none
  else if (entries.lookup key).isSome then none
  else some (put key (.value j) entries)

/-- Add a key with its value to an open table. -/
def addKey (path : List String) (j : Json) : Change :=
  match path.reverse with
  | [] => fun _ _ => none
  | key :: before => alongPath true (addValue (!before.isEmpty) key j) before.reverse

mutual

def toJson : Node → Json
  | .value j => j
  | .table _ _ entries => .obj (entriesToJson entries)
  | .tables done last => .arr (rowsToJson done ++ [.obj (entriesToJson last)])

def entriesToJson : List (String × Node) → List (String × Json)
  | [] => []
  | (k, n) :: rest => (k, toJson n) :: entriesToJson rest

def rowsToJson : List (List (String × Node)) → List Json
  | [] => []
  | row :: rest => .obj (entriesToJson row) :: rowsToJson rest

end

end Node

end CodeAtlas.Toml
