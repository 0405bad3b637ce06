import CodeAtlas.Toml.Number
import CodeAtlas.Toml.Quoted
import CodeAtlas.Toml.Table

/-! Documents of TOML 1.0, read as one JSON value. -/
namespace CodeAtlas.Toml

/-- What follows a comment, if there is one; its line end stays. -/
def skipComment? (cs : List Char) : Option (List Char) :=
  match cs with
  | '#' :: rest =>
    let rest := rest.dropWhile isPlain
    if rest.isEmpty || (afterNewline? rest).isSome then some rest else none
  | _ => some cs

/-- Skip blanks, comments and newlines. -/
def skipLines? : Nat → List Char → Option (List Char)
  | 0, _ => none
  | fuel + 1, cs => do
    let rest ← skipComment? (skipBlanks cs)
    match afterNewline? rest with
    | some rest => skipLines? fuel rest
    | none => some rest

def skipAll? (cs : List Char) : Option (List Char) := skipLines? (cs.length + 1) cs

/-- Arrays and tables in line are nested no deeper than this. -/
def nestingLimit : Nat := 80

mutual

/-- A value; `depth` is how much deeper arrays and tables may go. -/
def value? : Nat → Nat → Scan Json
  | 0, _, _ => none
  | fuel + 1, depth, cs =>
    match cs with
    | '[' :: rest => if depth == 0 then none else do
      let rest ← skipAll? rest
      match rest with
      | ']' :: rest => some (.arr [], rest)
      | _ =>
        let (items, rest) ← items? fuel (depth - 1) rest
        some (.arr items, rest)
    | '\x7b' :: rest => if depth == 0 then none else
      match skipBlanks rest with
      | '\x7d' :: rest => some (.obj [], rest)
      | rest => do
        let (entries, rest) ← fields? fuel (depth - 1) [] rest
        some (.obj (Node.entriesToJson entries), rest)
    | '"' :: _ | '\'' :: _ => do
      let (s, rest) ← string? cs
      some (.str s, rest)
    | _ => scalar? cs

/-- The items of an array, up to and with its closing bracket. -/
def items? : Nat → Nat → Scan (List Json)
  | 0, _, _ => none
  | fuel + 1, depth, cs => do
    let (j, rest) ← value? fuel depth cs
    match ← skipAll? rest with
    | ',' :: rest =>
      match ← skipAll? rest with
      | ']' :: rest => some ([j], rest)
      | rest =>
        let (more, rest) ← items? fuel depth rest
        some (j :: more, rest)
    | ']' :: rest => some ([j], rest)
    | _ => none

/-- The fields of a table in line, up to and with its closing brace. -/
def fields? : Nat → Nat → List (String × Node) → Scan (List (String × Node))
  | 0, _, _, _ => none
  | fuel + 1, depth, entries, cs => do
    let (path, rest) ← key? cs
    match rest with
    | '=' :: rest =>
      let (j, rest) ← value? fuel depth (skipBlanks rest)
      let entries ← Node.addKey path j false entries
      match skipBlanks rest with
      | ',' :: rest => fields? fuel depth entries rest
      | '\x7d' :: rest => some (entries, rest)
      | _ => none
    | _ => none

end

/-- A document as far as it has been read: its tables, and the way to the open one. -/
structure Document where
  entries : List (String × Node) := []
  path : List String := []

namespace Document

/-- Open the table of a header. -/
def openHeader? (d : Document) (path : List String) (act : String → Node.Change) : Option Document :=
  match path.reverse with
  | [] => none
  | key :: before =>
    (Node.alongPath false (act key) before.reverse false d.entries).map fun entries => ⟨entries, path⟩

/-- A header, or a key with its value. -/
def statement? (d : Document) (cs : List Char) : Option (Document × List Char) :=
  match cs with
  | '[' :: '[' :: rest => do
    let (path, rest) ← key? rest
    match rest with
    | ']' :: ']' :: rest => return (← d.openHeader? path Node.openNext, rest)
    | _ => none
  | '[' :: rest => do
    let (path, rest) ← key? rest
    match rest with
    | ']' :: rest => return (← d.openHeader? path Node.openTable, rest)
    | _ => none
  | _ => do
    let (path, rest) ← key? cs
    match rest with
    | '=' :: rest =>
      let (j, rest) ← value? (2 * rest.length + 2) nestingLimit (skipBlanks rest)
      let entries ← Node.alongPath false (Node.addKey path j) d.path false d.entries
      return ({ d with entries }, rest)
    | _ => none

/-- Statement after statement, each on a line of its own. -/
def statements? : Nat → Document → List Char → Option Document
  | 0, _, _ => none
  | fuel + 1, d, cs => do
    let cs ← skipAll? cs
    if cs.isEmpty then some d
    else
      let (d, rest) ← d.statement? cs
      let rest ← skipComment? (skipBlanks rest)
      if rest.isEmpty then some d
      else statements? fuel d (← afterNewline? rest)

end Document

/-- Read a whole text; a byte order mark before it is skipped. -/
def parse? (text : String) : Option Json := do
  let cs := match text.toList with
    | '\uFEFF' :: rest => rest
    | cs => cs
  let d ← Document.statements? (cs.length + 1) {} cs
  return .obj (Node.entriesToJson d.entries)

end CodeAtlas.Toml
