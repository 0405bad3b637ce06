import CodeAtlas.Proofs.Engine.Filing
import CodeAtlas.Proofs.Engine.Transparency
import CodeAtlas.Proofs.Query.Selection

/-! What graph data is made of.

The nodes of a query are the symbols of its answer, and that is one page of the symbols it
matches; the edges are the relationships of the scope between them, and those of the answer
(`graphFrom_completes`). An engine gives this graph as long as nothing it keeps for the query
is out of date (`getGraphData_of_keepsCurrent`), which can only be after requests that
overlapped, or when the query was asked too early (`Sound.keepsCurrent`). -/
namespace CodeAtlas

/-! ### Complete graphs -/

/-- No other relationship has ends that read the same when they are written in one text. -/
def Relationship.IsUnambiguous (r : Relationship) (others : List Relationship) : Prop :=
  ∀ r' ∈ others, r'.kind = r.kind → r'.key = r.key → r'.sourceId = r.sourceId ∧ r'.targetId = r.targetId

/-- A graph of some symbols: every id is that of one node, and edges differ in their ends or
types. All edges are relationships of a larger list, and those of a smaller one have edges. -/
structure GraphData.Completes (symbols : List Symbol) (smaller larger : List Relationship) (d : GraphData) : Prop where
  distinct : d.ids.Nodup
  ids : ∀ id, id ∈ d.ids ↔ id ∈ symbols.map Symbol.id
  nodes : ∀ n ∈ d.nodes, ∃ s ∈ symbols, n = GraphNode.ofSymbol s
  different : (d.edges.map fun e => (e.source, e.target, e.relationship.kind)).Nodup
  sound : ∀ e ∈ d.edges, ∃ r ∈ d.inside larger, e = GraphEdge.ofRelationship r
  complete : ∀ r ∈ d.inside smaller, r.IsUnambiguous (d.inside larger) →
    ∃ e ∈ d.edges, e.source = r.sourceId ∧ e.target = r.targetId ∧ e.relationship.kind = r.kind

namespace GraphQuery
open Engine

variable {provider : Provider} {resolver : Resolver} {q : GraphQuery} {ix : Index} {limit : Int} {scope : QueryScope}

/-- The graph of a query, from an index as it is. -/
def graphFrom (q : GraphQuery) (limit : Int) (scope : QueryScope) (ix : Index) : GraphData :=
  let r := q.answerFrom limit scope ix
  .ofParts r.symbols (ix.relationshipsInScope scope ++ r.relationships)

theorem freshGraph_of_full (hv : q.violations = []) (hfull : ix.isEmpty = false) :
    q.freshGraph provider resolver limit ix scope = .ok (q.graphFrom limit scope ix) := by
  have hfill : ix.filledFor provider resolver scope = .ok ix := Index.filledFor_of_not_isEmpty hfull
  rw [freshGraph, freshAnswer_of_valid hv hfill, hfill]
  rfl

/-- The relationships of the scope are among those of the effective scope, as are those of the answer. -/
theorem mem_parts {r : Relationship}
    (h : r ∈ ix.relationshipsInScope scope ++ (q.answerFrom limit scope ix).relationships) :
    r ∈ ix.relationshipsInScope (q.effectiveScope scope) := by
  rcases List.mem_append.mp h with h | h
  · exact KeyMap.collect_subset (fun _ => contains_effectiveScope) h
  · rw [← effectiveScope_normalize q limit scope]
    exact mem_answer h

theorem graphFrom_completes (limit : Int) (hf : ix.Filed) (hlimit : q.limit = none) (hoffset : q.offset = none)
    (htraverse : q.traverse = none)
    (hnames : q.literalNames? = none ∨ ∀ s ∈ q.matched scope ix, Text.longS ∉ s.name.toList) :
    (q.graphFrom limit scope ix).Completes ((q.matched scope ix).take (pageSize limit))
      (ix.relationshipsInScope scope) (ix.relationshipsInScope (q.effectiveScope scope)) := by
  rw [← symbols_answerFrom hf hlimit hoffset htraverse hnames]
  have hinside : ∀ r, r ∈ (q.graphFrom limit scope ix).inside
        (ix.relationshipsInScope scope ++ (q.answerFrom limit scope ix).relationships) →
      r ∈ (q.graphFrom limit scope ix).inside (ix.relationshipsInScope (q.effectiveScope scope)) := by
    intro r hr
    obtain ⟨hr, hends⟩ := GraphData.mem_inside.mp hr
    exact GraphData.mem_inside.mpr ⟨mem_parts hr, hends⟩
  refine ⟨GraphData.nodup_ids_ofParts _ _, fun _ => GraphData.mem_ids_ofParts, fun _ => GraphData.mem_nodes_ofParts,
    GraphData.nodup_edges_ofParts _ _, fun e he => ?_, fun r hr hclear => ?_⟩
  · obtain ⟨r, hr, rfl⟩ := GraphData.mem_edges_ofParts he
    exact ⟨r, hinside r hr, rfl⟩
  · obtain ⟨hr, hends⟩ := GraphData.mem_inside.mp hr
    obtain ⟨r', hr', hkey, hkind, hedge⟩ :=
      GraphData.exists_edge_ofParts (GraphData.mem_inside.mpr ⟨List.mem_append_left _ hr, hends⟩)
    obtain ⟨hsource, htarget⟩ := hclear r' (hinside r' hr') hkind hkey
    exact ⟨_, hedge, hsource, htarget, hkind⟩

/-- Without a query every symbol in scope matches. -/
theorem matched_everything (scope : QueryScope) (ix : Index) :
    everything.matched scope ix = ix.symbolsInScope scope := by
  rw [matched, show everything.matching _ = _ from matching_star _]
  have hscope : everything.effectiveScope scope = scope := by simp [effectiveScope, everything]
  rw [hscope]

end GraphQuery

/-! ### Engines that keep nothing out of date -/

namespace Engine

variable {c : Collaborators} {q : GraphQuery} {scope : QueryScope} {e e' : Engine}

/-- Whatever is kept for a query in a scope is what the index tells. -/
structure KeepsCurrent (e : Engine) (q : GraphQuery) (scope : QueryScope) : Prop where
  graph : ∀ json (data : GraphData), e.cache.Holds .graphData (q.cacheKey scope) json → decode? json = some data →
    data = q.graphFrom e.search.settings.limit scope e.search.index.contents
  cached : ∀ json (r : QueryResult), e.cache.Holds .queryResult (q.cacheKey scope) json → decode? json = some r →
    r.plain = q.answerFrom e.search.settings.limit scope e.search.index.contents
  remembered : ∀ r, (q.cacheKey scope, r) ∈ e.search.results.entries →
    r.plain = q.answerFrom e.search.settings.limit scope e.search.index.contents

/-- Then a query is answered with that. -/
theorem QueryOutcome.current {answer : Except AtlasError QueryResult} (ho : QueryOutcome c q scope e answer e')
    (hfull : e.search.index.contents.isEmpty = false) (hv : q.violations = []) (hcurrent : e.KeepsCurrent q scope) :
    ∃ r, answer = .ok r ∧ r.plain = q.answerFrom e.search.settings.limit scope e.search.index.contents ∧
      e'.search.index.contents = e.search.index.contents := by
  cases ho with
  | cached held decoded keeps =>
    have hplain := hcurrent.cached _ _ held decoded
    exact ⟨_, rfl, hplain, keeps.index⟩
  | remembered mem adds =>
    have hplain := hcurrent.remembered _ mem
    exact ⟨_, rfl, hplain, adds.index⟩
  | failed fresh keeps =>
    rw [GraphQuery.freshAnswer_of_valid hv (Index.filledFor_of_not_isEmpty hfull)] at fresh
    cases fresh
  | answered valid filled answer adds =>
    obtain rfl := Index.eq_of_filledFor filled hfull
    exact ⟨_, rfl, by rw [answer]; exact GraphQuery.plain_answer _ _ _, adds.index⟩

theorem getGraphData_of_keepsCurrent (c : Collaborators) (q : Option GraphQuery) (scope : Option QueryScope)
    (hfull : e.search.index.contents.isEmpty = false) (hv : (q.getD everything).violations = [])
    (hcurrent : e.KeepsCurrent (q.getD everything) (scope.getD e.scope)) :
    ((getGraphData c q scope).run e).1 =
      .ok ((q.getD everything).graphFrom e.search.settings.limit (scope.getD e.scope) e.search.index.contents) := by
  -- To number the request changes neither the index nor what is kept.
  have hticket : (takeTicket.run e).2.KeepsCurrent (q.getD everything) (scope.getD e.scope) :=
    ⟨hcurrent.graph, hcurrent.cached, hcurrent.remembered⟩
  have houtcome := getGraphData_outcome c q scope e
  generalize (getGraphData c q scope).run e = x at houtcome
  obtain ⟨answer, e'⟩ := x
  dsimp only at houtcome ⊢
  cases houtcome with
  | cached held decoded keeps => exact congrArg Except.ok (hticket.graph _ _ held decoded)
  | failed asked =>
    obtain ⟨r, hr, -⟩ := asked.current hfull hv hticket
    cases hr
  | made asked graph adds =>
    obtain ⟨r, hr, hplain, hindex⟩ := asked.current hfull hv hticket
    obtain rfl := Except.ok.inj hr
    have hsymbols := congrArg QueryResult.symbols hplain
    have hrelationships := congrArg QueryResult.relationships hplain
    refine congrArg Except.ok (graph.trans ?_)
    rw [hindex]
    exact congrArg₂ (fun symbols relationships => GraphData.ofParts symbols (_ ++ relationships)) hsymbols hrelationships

end Engine

/-- What an engine keeps that served its requests one after the other is current, unless the
query was asked too early. -/
theorem Sound.keepsCurrent {c : Collaborators} {early : List Question} {e : Engine} {q : GraphQuery}
    {scope : QueryScope} (hs : Sound c early e) (hfull : e.search.index.contents.isEmpty = false)
    (hv : q.violations = []) (hlate : .query q scope ∉ early) : e.KeepsCurrent q scope := by
  have hanswer : q.freshAnswer c.provider c.resolver e.search.settings.limit e.search.index.contents scope = _ :=
    GraphQuery.freshAnswer_of_valid hv (Index.filledFor_of_not_isEmpty hfull)
  have hgraph : q.freshGraph c.provider c.resolver e.search.settings.limit e.search.index.contents scope = _ :=
    GraphQuery.freshGraph_of_full hv hfull
  refine ⟨fun json data hheld hdecode => ?_, fun json r hheld hdecode => ?_, fun r hr => ?_⟩
  · exact (hs.values _ _ _ hheld data hdecode q scope rfl).told.eq hlate hgraph
  · exact (hs.values _ _ _ hheld r hdecode q scope rfl).told.eq hlate hanswer
  · exact (hs.results _ hr q scope rfl).told.eq hlate hanswer

namespace Engine

theorem served_filed (c : Collaborators) (config : AtlasConfig) (clock : Clock) (turns : List EngineTurn) :
    let e := (Served.run c config clock turns).engine
    e.search.index.Filed ∧ e.search.settings = config.query := by
  suffices h : Files (.ofConfig config clock) (Served.run c config clock turns).engine from
    ⟨h.filed Index.filed_empty, h.settings⟩
  unfold Served.run
  induction turns using List.reverseRecOn with
  | nil => exact .refl _
  | append_singleton turns turn ih =>
    rw [List.foldl_concat]
    refine ih.trans ?_
    cases turn with
    | call call => exact Routine.run_does (call_files c call) Files.refl Files.trans _
    | elapse ms => exact elapse_files ms _

/-! ### Graph data -/

/-- Take an engine with an index, after any requests: they may have overlapped, as long as
what it keeps for the query is current; or they were served one after the other and the
query was not asked too early. A valid query without bounds of its own, or none, gets the
graph of the first symbols it matches in its effective scope, one page of them; without a
query that is every symbol in scope. The relationships of the files in scope between these
have their edges, and there are no others than relationships of the files in the effective
scope. -/
theorem getGraphData_completes (config : AtlasConfig) (clock : Clock) (c : Collaborators) (q : Option GraphQuery)
    (scope : Option QueryScope) {e : Engine}
    (hvalid : (q.getD everything).violations = [])
    (hunbounded : (q.getD everything).limit = none ∧ (q.getD everything).offset = none ∧
      (q.getD everything).traverse = none)
    (hreached : ((∃ moves, (system.run (.ofConfig config clock) moves).state = e) ∧
        e.KeepsCurrent (q.getD everything) (scope.getD e.scope)) ∨
      ∃ turns, (Served.run c config clock turns).engine = e ∧
        .query (q.getD everything) (scope.getD e.scope) ∉ (Served.run c config clock turns).early)
    (hfull : e.search.index.isEmpty = false)
    (hnames : (q.getD everything).literalNames? = none ∨
      ∀ s ∈ (q.getD everything).matched (scope.getD e.scope) e.search.index, Text.longS ∉ s.name.toList) :
    let asked := q.getD everything
    let place := scope.getD e.scope
    let ix := e.search.index
    (∃ data, ((getGraphData c q scope).run e).1 = .ok data ∧
      data.Completes ((asked.matched place ix).take (GraphQuery.pageSize config.query.limit))
        (ix.relationshipsInScope place) (ix.relationshipsInScope (asked.effectiveScope place))) ∧
      (q = none → asked.matched place ix = ix.symbolsInScope place) := by
  intro asked place ix
  have hcontents : e.search.index.contents.isEmpty = false := hfull
  have hstate : (ix.Filed ∧ e.search.settings = config.query) ∧ e.KeepsCurrent asked place := by
    obtain ⟨⟨moves, rfl⟩, hcurrent⟩ | ⟨turns, rfl, hlate⟩ := hreached
    · exact ⟨run_filed config clock moves, hcurrent⟩
    · exact ⟨served_filed c config clock turns, (run_sound c config clock turns).keepsCurrent hcontents hvalid hlate⟩
  obtain ⟨⟨hfiled, hsettings⟩, hcurrent⟩ := hstate
  have hanswer := getGraphData_of_keepsCurrent c q scope hcontents hvalid hcurrent
  rw [hsettings] at hanswer
  have hfiled : ix.contents.Filed := hfiled.of_eq rfl rfl rfl
  obtain ⟨hlimit, hoffset, htraverse⟩ := hunbounded
  have hcompletes := GraphQuery.graphFrom_completes config.query.limit hfiled hlimit hoffset htraverse hnames
  refine ⟨⟨_, hanswer, hcompletes⟩, ?_⟩
  rintro rfl
  exact GraphQuery.matched_everything place ix

/-- An engine over some files, and what it runs with, after some calls. -/
def serving (files : MemoryProvider) (config : AtlasConfig) (calls : List EngineCall) : Collaborators × Engine :=
  let c : Collaborators := ⟨files.provider, files.resolver, .ofSeed 0⟩
  (c, (Served.run c config {} (calls.map .call)).engine)

/-- A module that imports its own function. -/
def selfImporting (uri : String) : MemoryProvider :=
  ({} : MemoryProvider).addFile uri
    [{ name := "a.js", kind := .name "file", range := default }, { name := "f", kind := .name "function", range := default }]
    ("import '" ++ uri ++ "::f:function'")

def buildAll : EngineCall := .buildIndex (some { includeTests := true })

/-- The ids and the ends in an answer. -/
def outline (answer : Except AtlasError GraphData) : Option (List String × List (String × String)) :=
  answer.toOption.map fun data => (data.ids, data.edges.map fun e => (e.source, e.target))

/-- The module, its function and the import between them. -/
theorem getGraphData_completes_importing :
    let c := (serving (selfImporting "file:///a.js") {} [buildAll]).1
    let e := (serving (selfImporting "file:///a.js") {} [buildAll]).2
    (∃ data, ((getGraphData c none none).run e).1 = .ok data ∧
      data.Completes ((e.search.index.symbolsInScope e.scope).take 1000)
        (e.search.index.relationshipsInScope e.scope) (e.search.index.relationshipsInScope e.scope)) ∧
      outline ((getGraphData c none none).run e).1 =
        some (["file:///a.js::a.js:file", "file:///a.js::f:function"],
          [("file:///a.js::a.js:file", "file:///a.js::f:function")]) := by
  intro c e
  have hearly : (Served.run c {} {} [.call buildAll]).early = [] := List.isEmpty_iff.mp (by decide +kernel)
  have hlate : .query everything e.scope ∉ (Served.run c {} {} [.call buildAll]).early := by
    rw [hearly]
    exact List.not_mem_nil
  obtain ⟨hcompletes, hmatched⟩ := getGraphData_completes {} {} c none none rfl ⟨rfl, rfl, rfl⟩
    (.inr ⟨[.call buildAll], rfl, hlate⟩) (by decide +kernel) (.inl (by decide +kernel))
  rw [hmatched rfl] at hcompletes
  exact ⟨hcompletes, by decide +kernel⟩

/-- Whether a graph has a node for everything that a query matches, and an edge for every
relationship in its effective scope between nodes. -/
def tellsAll (s : Collaborators × Engine) (q : GraphQuery) : Bool :=
  let ix := s.2.search.index
  match ((getGraphData s.1 (some q) none).run s.2).1 with
  | .error _ => false
  | .ok data =>
    (q.matched s.2.scope ix).all (data.ids.contains ·.id) &&
      (data.inside (ix.relationshipsInScope (q.effectiveScope s.2.scope))).all fun r =>
        data.edges.any fun e =>
          e.source == r.sourceId && e.target == r.targetId && e.relationship.kind == r.kind

/-- Engines with an index, and queries whose graphs leave something out: a page has no more
symbols than are configured, and a query that selects nothing is refused. -/
def incomplete : List ((Collaborators × Engine) × GraphQuery) :=
  let files := selfImporting "a.js"
  [(serving files { query := { maxLimit := 1 } } [buildAll], everything), (serving files {} [buildAll], {})]

/-- Not every graph is complete, though one that asks for nothing special is. None of the
queries has bounds. -/
theorem graph_leaves_out :
    tellsAll (serving (selfImporting "a.js") {} [buildAll]) everything = true ∧
      ∀ p ∈ incomplete, p.1.2.search.index.isEmpty = false ∧
        (p.2.limit = none ∧ p.2.offset = none ∧ p.2.traverse = none) ∧ tellsAll p.1 p.2 = false := by
  decide +kernel

end Engine

end CodeAtlas
