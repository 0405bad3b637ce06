import CodeAtlas.Graph.Data

/-! Dependencies of cached values: the resources a value was made from.

Every list is sorted and has no resource twice. -/
namespace CodeAtlas.Dependencies

/-- The distinct resources, sorted. -/
def distinct (uris : List String) : List String := uris.eraseDups.mergeSort fun a b => a ≤ b

/-- The symbols of a file depend on that file. -/
def ofFile (uri : String) : List String := [uri]

/-- References depend on the files they point into. -/
def ofLocations (locations : List Location) : List String := distinct (locations.map Location.uri)

/-- The ends of relationships are no resources; relationships depend on nothing. -/
def ofRelationships (_ : List Relationship) : List String := []

def ofGraph (d : GraphData) : List String := distinct (d.nodes.map (·.symbol.uri))

/-- A query result depends on the files of its symbols. -/
def ofSymbols (symbols : List Symbol) : List String := distinct (symbols.map Symbol.uri)

end CodeAtlas.Dependencies
