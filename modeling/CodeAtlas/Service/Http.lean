import CodeAtlas.Service.Command
import CodeAtlas.Text.Form

/-! The web service: which request goes where, and how it is answered.

A request to an unknown address, with a method the address does not have, or with
parameters or a body that cannot be read, is answered before the engine is asked. -/
namespace CodeAtlas
open Json

structure HttpRequest where
  method : String
  /-- The path, and after a question mark the query. -/
  target : String
  body : Option Json := none

structure HttpResponse where
  status : Nat
  body : Option Json := none

/-- What there is to ask for. -/
inductive Endpoint where
  | socket | command | health | graph | query | naturalQuery | suggestions | layout | index
  | readCache | clearCache | metrics
deriving DecidableEq, Repr

namespace Endpoint

/-- The methods of every address. -/
def routes : List (String × List (String × Endpoint)) :=
  [("/ws", [("GET", socket)]),
    ("/api/command", [("POST", command)]),
    ("/api/health", [("GET", health)]),
    ("/api/graph", [("GET", graph)]),
    ("/api/query", [("POST", query)]),
    ("/api/query/natural", [("GET", naturalQuery)]),
    ("/api/suggestions", [("GET", suggestions)]),
    ("/api/layout", [("POST", layout)]),
    ("/api/index", [("POST", index)]),
    ("/api/cache", [("GET", readCache), ("DELETE", clearCache)]),
    ("/api/metrics", [("GET", metrics)])]

end Endpoint

namespace HttpResponse

def ok (body : Json) : HttpResponse := ⟨200, some body⟩

/-- An answer without a body. -/
def plain (status : Nat) : HttpResponse := ⟨status, none⟩

/-- The status of an error. -/
def statusOf (e : AtlasError) : Nat :=
  match e with
  | .superseded _ => 409
  | e => if e.isClientError then 400 else 500

def ofError (e : AtlasError) : HttpResponse :=
  ⟨statusOf e, some (.obj [("code", .str e.code), ("message", .str e.message), ("details", e.details)])⟩

def ofResult : Except AtlasError Json → HttpResponse
  | .ok body => ok body
  | .error e => ofError e

end HttpResponse

namespace HttpRequest

def path (r : HttpRequest) : String := String.ofList (r.target.toList.takeWhile (· != '?'))

/-- The fields after the question mark. -/
def form (r : HttpRequest) : List (String × String) :=
  Form.fields (String.ofList ((r.target.toList.dropWhile (· != '?')).drop 1))

/-- Go on with the parameters, if they can be read. -/
def withForm {α : Type} (read : Except Form.Fault α) (act : α → Routine Engine HttpResponse) :
    Routine Engine HttpResponse :=
  match read with
  | .ok a => act a
  | .error _ => return .plain 400

/-- Go on with the body, if there is one and it can be read. -/
def withBody {α : Type} (r : HttpRequest) (read : Json → Option α)
    (act : α → Routine Engine HttpResponse) : Routine Engine HttpResponse :=
  match r.body with
  | none => return .plain 415
  | some j =>
    match read j with
    | some a => act a
    | none => return .plain 422

/-- A query and, if there is one, its scope. -/
def readQuery : Json → Option (GraphQuery × Option QueryScope) := record? do
  return (← required "query", ← optional "scope")

/-- A graph, an algorithm and options. -/
def readLayout : Json → Option (GraphData × Option String × LayoutOptionsUpdate) := record? do
  return (← required "data", ← optional "algorithm", ← withDefault "options" {})

/-- A name pattern, and whether tests are to be included. -/
def readGraph (fields : List (String × String)) : Except Form.Fault (Option String × Bool) := do
  return (← Form.value? fields "pattern", ← Form.flag fields "includeTests")

def graph (c : Collaborators) (pattern : Option String) (tests : Bool) : Routine Engine HttpResponse := do
  let scope ← Routine.look Engine.scope
  let query := pattern.map fun p => ({ select := { symbols := some [p] } } : GraphQuery)
  let scope := { scope with includeTests := scope.includeTests || tests }
  return .ofResult ((← Engine.getGraphData c query (some scope)).map encode)

def suggestions (text : String) : Routine Engine HttpResponse := do
  let queries ← Engine.querySuggestions text
  let symbols ← Engine.symbolSuggestions text
  return .ok (.obj [("queries", encode queries), ("symbols", encode symbols)])

def layout (c : Collaborators) (data : GraphData) (algorithm : Option String)
    (options : LayoutOptionsUpdate) : Routine Engine HttpResponse := do
  match ← Engine.computeLayout c.drawn data algorithm options with
  | .error e => return .ofError e
  | .ok result => return .ok (.obj [("layout", encode result), ("quality", encode result.quality)])

def answer (c : Collaborators) (r : HttpRequest) : Endpoint → Routine Engine HttpResponse
  | .socket => return .plain 400
  | .command => r.withBody decode? fun request => return .ofResult (← dispatch c request)
  | .health => return .ok (← Engine.healthCheck c).toJson
  | .graph => withForm (readGraph r.form) fun (pattern, tests) => graph c pattern tests
  | .query => r.withBody readQuery fun (q, scope) =>
    return .ofResult ((← Engine.executeQuery c q scope).map encode)
  | .naturalQuery => withForm (Form.required r.form "text") fun text =>
    return .ofResult ((← Engine.executeText c text none).map encode)
  | .suggestions => withForm (Form.value? r.form "q") fun q => suggestions (q.getD "")
  | .layout => r.withBody readLayout fun (data, algorithm, options) => layout c data algorithm options
  | .index => return .ofResult ((← Engine.buildIndex c none).map encode)
  | .readCache => return .ok (encode (← Engine.cacheStats))
  | .clearCache => do
    Engine.clearCache none
    return .plain 204
  | .metrics => return .ok (← Engine.performanceMetrics).toJson

/-- Answer a request. A question about the options of any address is granted; a
request for the head of an answer gets the answer without its body, but a socket is
only opened by `GET`. -/
def serve (c : Collaborators) (r : HttpRequest) : Routine Engine HttpResponse :=
  if r.method == "OPTIONS" then return .plain 200
  else
    match Endpoint.routes.lookup r.path with
    | none => return .plain 404
    | some methods =>
      match methods.lookup r.method, methods.lookup "GET" with
      | some endpoint, _ => r.answer c endpoint
      | none, some endpoint =>
        if r.method == "HEAD" && endpoint != .socket then do return .plain (← r.answer c endpoint).status
        else return .plain 405
      | none, none => return .plain 405

end HttpRequest

end CodeAtlas
