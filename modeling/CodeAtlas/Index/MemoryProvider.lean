import CodeAtlas.Index.Provider
import CodeAtlas.KeyMap

/-! A provider and resolver that answer from memory. -/
namespace CodeAtlas

structure MemoryFile where
  symbols : List RawSymbol := []
  text : String := ""
  /-- Which position is referred to from where. -/
  references : List (Position × Location) := []

structure MemoryProvider where
  files : KeyMap MemoryFile := {}
  /-- Files whose analysis fails for now. -/
  failing : List String := []
  isShutDown : Bool := false

namespace MemoryProvider

def addFile (m : MemoryProvider) (uri : String) (symbols : List RawSymbol) (text : String) :
    MemoryProvider :=
  { m with files := m.files.insert uri { symbols, text } }

def removeFile (m : MemoryProvider) (uri : String) : MemoryProvider :=
  { m with files := m.files.erase uri }

def failFile (m : MemoryProvider) (uri : String) : MemoryProvider :=
  { m with failing := uri :: m.failing }

def healFile (m : MemoryProvider) (uri : String) : MemoryProvider :=
  { m with failing := m.failing.filter (· != uri) }

/-- Note a reference to a position of a known file. -/
def addReference (m : MemoryProvider) (uri : String) (position : Position) (source : Location) :
    MemoryProvider :=
  match m.files.find? uri with
  | none => m
  | some f =>
    { m with files := m.files.insert uri { f with references := f.references ++ [(position, source)] } }

def file (m : MemoryProvider) (uri : String) : Except String MemoryFile :=
  if m.failing.contains uri then .error ("analysis unavailable for " ++ uri)
  else
    match m.files.find? uri with
    | some f => .ok f
    | none => .error ("unknown file " ++ uri)

/-- A definition is the first top-level symbol around the position. -/
def definition (m : MemoryProvider) (uri : String) (p : Position) : Except String (List Location) := do
  let f ← m.file uri
  match f.symbols.find? (·.range.contains p) with
  | some s => return [⟨uri, s.selectionRange.getD s.range⟩]
  | none => return []

def provider (m : MemoryProvider) : Provider where
  name := "memory"
  documentSymbols uri := MemoryFile.symbols <$> m.file uri
  documentText uri := MemoryFile.text <$> m.file uri
  references uri p := do
    let f ← m.file uri
    return (f.references.filter (·.1 == p)).map (·.2)
  definition := m.definition
  implementations _ _ := .ok []
  typeDefinition _ _ := .ok []
  wordAt uri p := do
    let f ← m.file uri
    return CodeAtlas.wordAt f.text p

/-- Files are listed in order, as far as they are in scope. -/
def resolver (m : MemoryProvider) : Resolver :=
  { files := fun scope => .ok (m.files.keys.filter scope.contains) }

end MemoryProvider

end CodeAtlas
