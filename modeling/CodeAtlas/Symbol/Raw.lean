import CodeAtlas.Error
import CodeAtlas.Symbol.Basic

/-! Raw symbols, as an analysis hands them over, and how they become symbols.

Raw symbols are loosely typed trees. Ingestion visits every entry once, parents
before children, and makes a flat list of symbols of it: a malformed entry is put
aside without its children, an entry whose id is taken is passed over. A child
without a container of its own gets its parent's name. -/
namespace CodeAtlas
open Json

/-- A kind as an analysis sends it. -/
inductive RawKind where
  | code (n : Nat)
  | name (s : String)
deriving DecidableEq, Inhabited, Repr

def RawKind.resolve : RawKind → Except String SymbolKind
  | .code n =>
    match SymbolKind.ofCode? n with
    | some kind => .ok kind
    | none => .error s!"unknown symbol kind code {n}"
  | .name s => SymbolKind.parse s

instance : Wire RawKind where
  encode
    | .code n => encode n
    | .name s => encode s
  decode?
    | .str s => some (.name s)
    | j => .code <$> nat? j

/-- One entry of a raw symbol tree. -/
structure RawSymbol where
  name : String
  kind : RawKind
  range : Range
  selectionRange : Option Range := none
  /-- Signature or type. -/
  detail : Option String := none
  containerName : Option String := none
  /-- Words such as `export`, `static` or `private`. -/
  modifiers : List String := []
  tags : List String := []
  documentation : Option String := none
  children : List RawSymbol := []
deriving Inhabited

namespace RawSymbol

/-- The fields before the children. -/
def ownFields (s : RawSymbol) : List (Option (String × Json)) :=
  [put "name" s.name, put "kind" s.kind, put "range" s.range,
    putSome "selectionRange" s.selectionRange, putSome "detail" s.detail,
    putSome "containerName" s.containerName, put "modifiers" s.modifiers, put "tags" s.tags,
    putSome "documentation" s.documentation]

mutual

def toJson : RawSymbol → Json
  | ⟨name, kind, range, selection, detail, container, modifiers, tags, documentation, children⟩ =>
    .object (ownFields ⟨name, kind, range, selection, detail, container, modifiers, tags,
      documentation, []⟩ ++ [some ("children", .arr (listToJson children))])

def listToJson : List RawSymbol → List Json
  | [] => []
  | s :: rest => toJson s :: listToJson rest

end

/-- All but the children, which are left as they are written. -/
def readOwn : Reader (RawSymbol × List Json) := do
  let name ← required "name"
  let kind ← required "kind"
  let range ← required "range"
  let selectionRange ← optional "selectionRange"
  let detail ← optional "detail"
  let containerName ← optional "containerName"
  let modifiers ← withDefault "modifiers" []
  let tags ← withDefault "tags" []
  let documentation ← optional "documentation"
  let children ← withDefault "children" ([] : List Json)
  return ({ name, kind, range, selectionRange, detail, containerName, modifiers, tags, documentation },
    children)

mutual

/-- The nesting of a value. -/
def depth : Json → Nat
  | .arr items => depthOfItems items + 1
  | .obj fields => depthOfFields fields + 1
  | _ => 1

def depthOfItems : List Json → Nat
  | [] => 0
  | j :: rest => max (depth j) (depthOfItems rest)

def depthOfFields : List (String × Json) → Nat
  | [] => 0
  | (_, j) :: rest => max (depth j) (depthOfFields rest)

end

/-- Read a tree no deeper than `fuel`. -/
def ofJson? : Nat → Json → Option RawSymbol
  | 0, _ => none
  | fuel + 1, j => do
    let (own, children) ← record? readOwn j
    let children ← children.mapM (ofJson? fuel)
    return { own with children }

end RawSymbol

instance : Wire RawSymbol where
  encode := RawSymbol.toJson
  decode? j := RawSymbol.ofJson? (RawSymbol.depth j) j

namespace RawSymbol

/-- Apply one modifier or tag to the metadata. -/
def applyModifier (m : SymbolMetadata) (modifier : String) : SymbolMetadata :=
  match Text.asciiLowercase modifier with
  | "export" | "exported" | "pub" => { m with isExported := true }
  | "public" => { m with isExported := true, visibility := some .public }
  | "private" => { m with visibility := some .private }
  | "protected" => { m with visibility := some .protected }
  | "internal" | "pub(crate)" => { m with visibility := some .internal }
  | "deprecated" => { m with isDeprecated := true }
  | "static" => { m with isStatic := true }
  | "abstract" => { m with isAbstract := true }
  | _ => m

/-- Modifiers first, then tags; of two visibilities the later one counts. -/
def metadata (s : RawSymbol) : SymbolMetadata :=
  (s.modifiers ++ s.tags).foldl applyModifier
    { tags := s.tags, documentation := s.documentation, typeInfo := s.detail }

/-- The symbol an entry stands for, inside a container. -/
def validate (uri : String) (container : Option String) (s : RawSymbol) : Except AtlasError Symbol :=
  let name := Text.trim s.name
  if name.isEmpty then .error (.malformedSymbol uri "empty symbol name")
  else
    match s.kind.resolve with
    | .error e => .error (.malformedSymbol uri (e ++ " for '" ++ name ++ "'"))
    | .ok kind =>
      if s.range.isInverted then .error (.malformedSymbol uri ("inverted range for '" ++ name ++ "'"))
      else .ok { Symbol.ofParts name kind ⟨uri, s.range⟩ container with metadata := s.metadata }

end RawSymbol

/-- What became of the entries of one file. -/
structure Ingested where
  /-- Parents before children, no id twice. -/
  symbols : List Symbol := []
  quarantined : List AtlasError := []

namespace Ingested

def holds (out : Ingested) (id : String) : Bool := out.symbols.any (·.id == id)

/-- Take in one valid symbol, unless its id is taken. -/
def accept (out : Ingested) (s : Symbol) : Ingested :=
  if out.holds s.id then out else { out with symbols := out.symbols ++ [s] }

def reject (out : Ingested) (e : AtlasError) : Ingested :=
  { out with quarantined := out.quarantined ++ [e] }

mutual

/-- Take in an entry and then its children. -/
def visit (uri : String) (parent : Option String) (out : Ingested) : RawSymbol → Ingested
  | ⟨name, kind, range, selection, detail, containerName, modifiers, tags, documentation, children⟩ =>
    let entry : RawSymbol :=
      ⟨name, kind, range, selection, detail, containerName, modifiers, tags, documentation, []⟩
    let container := containerName.or parent
    match entry.validate uri container with
    | .ok s => visitAll uri (some s.name) (out.accept s) children
    | .error e => visitAll uri container (out.reject e) children

def visitAll (uri : String) (parent : Option String) (out : Ingested) : List RawSymbol → Ingested
  | [] => out
  | s :: rest => visitAll uri parent (visit uri parent out s) rest

end

end Ingested

/-- The symbols of a file, from its raw trees. -/
def ingest (uri : String) (raw : List RawSymbol) : Ingested := Ingested.visitAll uri none {} raw

end CodeAtlas
