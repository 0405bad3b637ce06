import CodeAtlas.Query.Model

/-! What searches are configured with, which queries may run, and the form they run in. -/
namespace CodeAtlas

structure QuerySettings where
  /-- How many results are kept. -/
  resultCacheCapacity : Nat := 100
  /-- How many items a page may have. -/
  maxLimit : Nat := 1000
deriving DecidableEq, Inhabited, Repr

/-- The configured limit, read as a signed number of 64 bits. -/
def QuerySettings.limit (s : QuerySettings) : Int := (Int64.ofNat s.maxLimit).toInt

namespace GraphQuery

/-- No page has more results than this. -/
def maxLimit : Int := 1000

def minDepth : Int := 1

def maxDepth : Int := 10

def selectViolations (s : QuerySelect) : List String :=
  match s.symbols, s.relationships with
  | none, none => ["select must name symbols or relationships"]
  | symbols, relationships =>
    (if symbols == some [] then ["select.symbols must not be empty"] else []) ++
      (if relationships == some [] then ["select.relationships must not be empty"] else [])

def depthViolations (depth : Int64) : List String :=
  let d := depth.toInt
  if minDepth ≤ d && d ≤ maxDepth then []
  else [s!"traverse.depth must be between {minDepth} and {maxDepth}, got {d}"]

def offsetViolations (offset : Int64) : List String :=
  let n := offset.toInt
  if n < 0 then [s!"offset must not be negative, got {n}"] else []

def limitViolations (limit : Int64) : List String :=
  let n := limit.toInt
  if n < 1 then [s!"limit must be at least 1, got {n}"] else []

def ofOption {α : Type} (f : α → List String) : Option α → List String
  | none => []
  | some a => f a

/-- Everything that is wrong with a query; nothing when it may run. -/
def violations (q : GraphQuery) : List String :=
  selectViolations q.select ++ ofOption (fun t => depthViolations t.depth) q.traverse ++
    ofOption offsetViolations q.offset ++ ofOption limitViolations q.limit

/-- The most results a page has under a configured limit. -/
def ceiling (limit : Int) : Int := if limit < 1 then 1 else if limit > maxLimit then maxLimit else limit

/-- The query with its defaults filled in and its numbers kept within bounds. -/
def normalize (limit : Int) (q : GraphQuery) : GraphQuery :=
  let top := Int64.ofInt (ceiling limit)
  let wanted := q.limit.getD top
  { q with
    limit := some (if wanted.toInt < top.toInt then wanted else top)
    offset := some (q.offset.getD 0)
    traverse := q.traverse.map fun t =>
      { t with depth := if t.depth.toInt < maxDepth then t.depth else Int64.ofInt maxDepth }
    filter := q.filter.map fun f => { f with includeTests := some (f.includeTests.getD false) } }

end GraphQuery

end CodeAtlas
