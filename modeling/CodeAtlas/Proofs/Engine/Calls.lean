import CodeAtlas.Engine.Basic
import CodeAtlas.Proofs.Cache.Holdings
import CodeAtlas.Proofs.Query.Answer

/-! The calls of an engine, and what they add to its two caches.

Reads go through the cache, and queries also through the results the search keeps.
What a call leaves behind is the index it has come to, the results and values it may
have added, and nothing else that was not there before (`Adds`). -/
namespace CodeAtlas

/-- What is read from an engine. -/
inductive EngineRead where
  | query (q : GraphQuery) (scope : Option QueryScope)
  | graph (q : Option GraphQuery) (scope : Option QueryScope)
  | symbols (uri : String)
  | relationships (uri : String)

inductive EngineCall where
  | read (r : EngineRead)
  | buildIndex (scope : Option QueryScope)
  | updateIndex (uris : List String)
  | clearIndex
  | clearCache (place : Option CacheStore)
  | optimizeCache

/-- What a call is answered with. -/
inductive EngineAnswer where
  | found (r : Except AtlasError QueryResult)
  | graph (r : Except AtlasError GraphData)
  | symbols (symbols : List Symbol)
  | relationships (relationships : List Relationship)
  | indexed (r : Except AtlasError IndexSummary)
  | removed (n : Nat)
  | done

def EngineRead.routine (c : Collaborators) : EngineRead → Routine Engine EngineAnswer
  | query q scope => do return .found (← Engine.executeQuery c q scope)
  | graph q scope => do return .graph (← Engine.getGraphData c q scope)
  | symbols uri => do return .symbols (← Engine.fileSymbols uri)
  | relationships uri => do return .relationships (← Engine.fileRelationships uri)

def EngineCall.routine (c : Collaborators) : EngineCall → Routine Engine EngineAnswer
  | read r => r.routine c
  | buildIndex scope => do return .indexed (← Engine.buildIndex c scope)
  | updateIndex uris => do return .indexed (.ok (← Engine.updateIndex c uris))
  | clearIndex => do
    Engine.clearIndex
    return .done
  | clearCache place => do
    Engine.clearCache place
    return .done
  | optimizeCache => do return .removed (← Engine.optimizeCache)

namespace Engine

variable {α : Type} {e e' e'' : Engine} {ix ix' : Index}

/-! ### What is left behind -/

/-- A call has come to this index, and added at most these results and values. -/
structure Adds (e e' : Engine) (ix : Index) (results : List (String × QueryResult))
    (values : List (CacheStore × String × Json)) : Prop where
  index : e'.search.index.contents = ix
  results : ∀ p ∈ e'.search.results.entries, p ∈ e.search.results.entries ∨ p ∈ results
  values : ∀ place key data, e'.cache.Holds place key data →
    e.cache.Holds place key data ∨ (place, key, data) ∈ values
  settings : e'.search.settings = e.search.settings
  generation : e'.graphGeneration = e.graphGeneration

theorem Adds.isEmpty {results : List (String × QueryResult)} {values : List (CacheStore × String × Json)}
    (h : Adds e e' ix results values) : e'.search.index.isEmpty = ix.isEmpty :=
  show e'.search.index.contents.isEmpty = ix.isEmpty by rw [h.index]

/-- Nothing was added, and the index is the same. -/
abbrev Keeps (e e' : Engine) : Prop := Adds e e' e.search.index.contents [] []

theorem Keeps.refl (e : Engine) : Keeps e e :=
  ⟨rfl, fun _ h => .inl h, fun _ _ _ h => .inl h, rfl, rfl⟩

theorem Adds.trans {results results' : List (String × QueryResult)} {values values' : List (CacheStore × String × Json)}
    (h : Adds e e' ix results values) (h' : Adds e' e'' ix' results' values') :
    Adds e e'' ix' (results ++ results') (values ++ values') := by
  refine ⟨h'.index, fun p hp => ?_, fun place key data hd => ?_, h'.settings.trans h.settings,
    h'.generation.trans h.generation⟩
  · rw [List.mem_append]
    rcases h'.results p hp with hp | hp
    · exact (h.results p hp).imp_right .inl
    · exact .inr (.inr hp)
  · rw [List.mem_append]
    rcases h'.values place key data hd with hd | hd
    · exact (h.values place key data hd).imp_right .inl
    · exact .inr (.inr hd)

theorem Keeps.trans (h : Keeps e e') (h' : Keeps e' e'') : Keeps e e'' := by
  have := Adds.trans h h'
  rwa [h.index] at this

/-- Nothing happened before. -/
theorem Adds.after {results : List (String × QueryResult)} {values : List (CacheStore × String × Json)}
    (h : Keeps e e') (h' : Adds e' e'' ix results values) : Adds e e'' ix results values := by
  simpa using Adds.trans h h'

/-- Nothing happened afterwards. -/
theorem Adds.before {results : List (String × QueryResult)} {values : List (CacheStore × String × Json)}
    (h : Adds e e' ix results values) (h' : Keeps e' e'') : Adds e e'' ix results values := by
  have h'' := Adds.trans h h'
  rwa [List.append_nil, List.append_nil, h.index] at h''

theorem keeps_withCache {c : Cache} (h : Cache.Shrinks e.cache c) : Keeps e (e.withCache c) :=
  ⟨rfl, fun _ h => .inl h, fun place key data hd => .inl (h place key data hd), rfl, rfl⟩

theorem keeps_record (f : Metrics → Metrics) (e : Engine) : Keeps e ((record f).run e).2 :=
  ⟨rfl, fun _ h => .inl h, fun _ _ _ h => .inl h, rfl, rfl⟩

theorem keeps_announce (event : GraphEvent) (e : Engine) : Keeps e ((announce event).run e).2 :=
  ⟨rfl, fun _ h => .inl h, fun _ _ _ h => .inl h, rfl, rfl⟩

/-! ### Parts -/

theorem onCache_run (r : Routine Cache α) (e : Engine) :
    ((onCache r).run e).1 = (r.runWith Cache.tidy e.cache).1 ∧
      ((onCache r).run e).2.cache = (r.runWith Cache.tidy e.cache).2 := by
  refine Routine.run_within ?_ r e
  exact fun _ _ => rfl

theorem onSearch_run (r : Routine Search α) (e : Engine) :
    ((onSearch r).run e).1 = (r.runWith Search.tidy e.search).1 ∧
      ((onSearch r).run e).2.search = (r.runWith Search.tidy e.search).2 := by
  refine Routine.run_within ?_ r e
  exact fun _ _ => rfl

/-- What a routine on the search leaves as it is. -/
structure SearchFrame (e e' : Engine) : Prop where
  cache : e'.cache = e.cache
  generation : e'.graphGeneration = e.graphGeneration

theorem onSearch_frame (r : Routine Search α) (e : Engine) : SearchFrame e ((onSearch r).run e).2 := by
  refine Routine.run_does ?_ (fun _ => ⟨rfl, rfl⟩)
    (fun h h' => ⟨h'.cache.trans h.cache, h'.generation.trans h.generation⟩) e
  exact Routine.does_within r.does_any (fun _ _ _ => ⟨rfl, rfl⟩) fun _ => ⟨rfl, rfl⟩

theorem SearchFrame.adds (h : SearchFrame e e') {results : List (String × QueryResult)}
    (hindex : e'.search.index.contents = ix) (hsettings : e'.search.settings = e.search.settings)
    (hresults : ∀ p ∈ e'.search.results.entries, p ∈ e.search.results.entries ∨ p ∈ results) :
    Adds e e' ix results [] :=
  ⟨hindex, hresults, fun place key data hd => .inl (by rw [← h.cache]; exact hd), hsettings, h.generation⟩

theorem SearchFrame.keeps (h : SearchFrame e e') (hs : Search.Same e.search e'.search) : Keeps e e' :=
  h.adds hs.index hs.settings fun p hp => .inl (by rw [← hs.results]; exact hp)

theorem onCache_keeps {r : Routine Cache α} (h : r.Does Cache.Shrinks) (e : Engine) : Keeps e ((onCache r).run e).2 :=
  Routine.run_does (Routine.does_within h (fun _ _ => keeps_withCache) Keeps.refl) Keeps.refl Keeps.trans e

theorem readIndex_run (f : Index → α) (e : Engine) :
    ((onIndex (Routine.look f)).run e).1 = f e.search.index ∧ Keeps e ((onIndex (Routine.look f)).run e).2 :=
  ⟨rfl, rfl, fun _ h => .inl h, fun _ _ _ h => .inl h, rfl, rfl⟩

/-- A lookup adds nothing, and what it finds was held. -/
theorem lookup_run [Wire α] (place : CacheStore) (key : String) (e : Engine) :
    let r := (onCache (Cache.getAs place key : Routine Cache (Option α))).run e
    Keeps e r.2 ∧ ∀ v, r.1 = some v → ∃ data, e.cache.Holds place key data ∧ decode? data = some v := by
  refine ⟨onCache_keeps (Cache.shrinks_getAs place key) e, fun v hv => ?_⟩
  rw [(onCache_run _ e).1] at hv
  exact Cache.holds_of_getAs hv

theorem store_run [Wire α] (place : CacheStore) (key : String) (value : α) (dependencies : List String) (e : Engine) :
    Adds e ((store place key value dependencies).run e).2 e.search.index.contents [] [(place, key, encode value)] := by
  refine ⟨rfl, fun p hp => .inl hp, fun place' key' data h => ?_, rfl, rfl⟩
  refine (Cache.holds_set h).imp_right ?_
  rintro ⟨rfl, rfl, rfl⟩
  exact List.mem_singleton_self _

/-- Store a result and count the query. -/
theorem store_record_run (key : String) (result : QueryResult) (f : Metrics → Metrics) (e : Engine) :
    Adds e ((do
      store .queryResult key result (Dependencies.ofSymbols result.symbols)
      record f
      return Except.ok result : Routine Engine (Except AtlasError QueryResult)).run e).2
      e.search.index.contents [] [(.queryResult, key, encode result)] :=
  (store_run .queryResult key result _ e).before (keeps_record f _)

theorem scopeOr_run (scope : Option QueryScope) (e : Engine) : (scopeOr scope).run e = (scope.getD e.scope, e) := by
  cases scope <;> rfl

/-! ### Reads -/

/-- How a query is answered: with a value from the cache, or with a result the search
remembers, or not at all, or from the index after that was filled if need be. -/
inductive QueryOutcome (c : Collaborators) (q : GraphQuery) (scope : QueryScope) (e : Engine) :
    Except AtlasError QueryResult → Engine → Prop where
  | cached {data : Json} {found : QueryResult} {e' : Engine} (held : e.cache.Holds .queryResult (q.cacheKey scope) data)
      (decoded : decode? data = some found) (keeps : Keeps e e') : QueryOutcome c q scope e (.ok (recalled found)) e'
  | remembered {found : QueryResult} {e' : Engine} (mem : (q.cacheKey scope, found) ∈ e.search.results.entries)
      (adds : Adds e e' e.search.index.contents [] [(.queryResult, q.cacheKey scope, encode (recalled found))]) :
      QueryOutcome c q scope e (.ok (recalled found)) e'
  | failed {err : AtlasError} {e' : Engine}
      (fresh : q.freshAnswer c.provider c.resolver e.search.settings.limit e.search.index.contents scope = .error err)
      (keeps : Keeps e e') : QueryOutcome c q scope e (.error err) e'
  | answered {ix : Index} {a : QueryResult} {e' : Engine} (valid : q.violations = [])
      (filled : e.search.index.contents.filledFor c.provider c.resolver scope = .ok ix)
      (answer : a = q.answerFrom e.search.settings.limit scope ix)
      (adds : Adds e e' ix [(q.cacheKey scope, a)] [(.queryResult, q.cacheKey scope, encode a)]) :
      QueryOutcome c q scope e (.ok a) e'

theorem QueryOutcome.after {c : Collaborators} {q : GraphQuery} {scope : QueryScope}
    {answer : Except AtlasError QueryResult} (h : Keeps e e') (ho : QueryOutcome c q scope e' answer e'') :
    QueryOutcome c q scope e answer e'' := by
  cases ho with
  | cached held decoded keeps =>
    have hheld := (h.values _ _ _ held).resolve_right List.not_mem_nil
    exact .cached hheld decoded (h.trans keeps)
  | remembered mem adds =>
    have hmem := (h.results _ mem).resolve_right List.not_mem_nil
    rw [h.index] at adds
    exact .remembered hmem (h.after adds)
  | failed fresh keeps =>
    rw [h.index, h.settings] at fresh
    exact .failed fresh (h.trans keeps)
  | answered valid filled answer adds =>
    rw [h.index] at filled
    rw [h.settings] at answer
    exact .answered valid filled answer (h.after adds)

/-- Ask the search, and store what it answers. -/
def askSearch (c : Collaborators) (q : GraphQuery) (scope : QueryScope) :
    Routine Engine (Except AtlasError QueryResult) := do
  match ← onSearch (Search.execute c.provider c.resolver q scope) with
  | .error e => return .error e
  | .ok result =>
    store .queryResult (q.cacheKey scope) result (Dependencies.ofSymbols result.symbols)
    record (Metrics.recordQuery result.executionTimeMs)
    return .ok result

theorem askSearch_outcome (c : Collaborators) (q : GraphQuery) (scope : QueryScope) (e : Engine) :
    let r := (askSearch c q scope).run e
    QueryOutcome c q scope e r.1 r.2 := by
  intro r
  have hr : r = (askSearch c q scope).run e := rfl
  rw [askSearch, Routine.run_bind] at hr
  obtain ⟨hanswer, hsearch⟩ := onSearch_run (Search.execute c.provider c.resolver q scope) e
  have hframe := onSearch_frame (Search.execute c.provider c.resolver q scope) e
  have hcases := Search.execute_cases c.provider c.resolver q scope e.search
  generalize (onSearch (Search.execute c.provider c.resolver q scope)).run e = x at hr hanswer hsearch hframe
  obtain ⟨answer, e₁⟩ := x
  dsimp only at hr hanswer hsearch hframe hcases
  rw [← hanswer, ← hsearch] at hcases
  obtain ⟨found, hget, rfl, hsame⟩ | ⟨err, hfresh, rfl, hsame⟩ | ⟨ix, hv, hfill, ha⟩ := hcases
  · have hkeeps := hframe.keeps hsame
    have hstore :=
      store_record_run (q.cacheKey scope) (recalled found) (Metrics.recordQuery (recalled found).executionTimeMs) e₁
    have hadds := hkeeps.after hstore
    rw [hkeeps.index] at hadds
    rw [hr]
    exact .remembered (ResultCache.mem_of_get? hget) hadds
  · rw [hr]
    exact .failed hfresh (hframe.keeps hsame)
  · obtain rfl := ha.answer
    let a := q.answerFrom e.search.settings.limit scope ix
    have hstore := store_record_run (q.cacheKey scope) a (Metrics.recordQuery a.executionTimeMs) e₁
    have hfilled : Adds e e₁ ix [(q.cacheKey scope, a)] [] := by
      refine hframe.adds ha.index ha.settings fun p hp => ?_
      rw [ha.results] at hp
      exact (ResultCache.mem_insert hp).symm.imp_right List.mem_singleton.mpr
    have hadds := hfilled.trans hstore
    rw [ha.index] at hadds
    rw [hr]
    exact .answered hv hfill rfl hadds

theorem executeQuery_outcome (c : Collaborators) (q : GraphQuery) (scope : Option QueryScope) (e : Engine) :
    let r := (executeQuery c q scope).run e
    QueryOutcome c q (scope.getD e.scope) e r.1 r.2 := by
  intro r
  have hr : r = (executeQuery c q scope).run e := rfl
  rw [executeQuery, Routine.run_bind, scopeOr_run, Routine.run_bind] at hr
  obtain ⟨hkeeps, hfound⟩ := lookup_run (α := QueryResult) .queryResult (q.cacheKey (scope.getD e.scope)) e
  generalize (onCache (Cache.getAs .queryResult (q.cacheKey (scope.getD e.scope)) :
    Routine Cache (Option QueryResult))).run e = l at hr hkeeps hfound
  obtain ⟨found, e₁⟩ := l
  cases found with
  | some found =>
    obtain ⟨data, hdata, hdecode⟩ := hfound found rfl
    rw [hr]
    exact .cached hdata hdecode (hkeeps.trans ((keeps_announce _ e₁).trans (keeps_record _ _)))
  | none =>
    have hr : r = (askSearch c q (scope.getD e.scope)).run e₁ := hr
    rw [hr]
    exact (askSearch_outcome c q (scope.getD e.scope) e₁).after hkeeps

theorem QueryOutcome.generation {c : Collaborators} {q : GraphQuery} {scope : QueryScope}
    {answer : Except AtlasError QueryResult} (h : QueryOutcome c q scope e answer e') :
    e'.graphGeneration = e.graphGeneration := by
  cases h with
  | cached _ _ keeps => exact keeps.generation
  | remembered _ adds => exact adds.generation
  | failed _ keeps => exact keeps.generation
  | answered _ _ _ adds => exact adds.generation

/-- The newest request for graph data is not given up. -/
theorem isCurrent_bind {ticket : Nat} (h : e.graphGeneration = ticket) (f : Bool → Routine Engine α) :
    (isCurrent ticket >>= f).run e = (f true).run e := by
  rw [Routine.run_bind]
  show (f (e.graphGeneration == ticket)).run e = _
  rw [h, beq_self_eq_true]

/-- How graph data is answered: with what the cache holds, or as the query fails, or
with a graph of the query's answer and the relationships in scope. -/
inductive GraphOutcome (c : Collaborators) (q : GraphQuery) (scope : QueryScope) (e : Engine) :
    Except AtlasError GraphData → Engine → Prop where
  | cached {data : Json} {found : GraphData} {e' : Engine} (held : e.cache.Holds .graphData (q.cacheKey scope) data)
      (decoded : decode? data = some found) (keeps : Keeps e e') : GraphOutcome c q scope e (.ok found) e'
  | failed {err : AtlasError} {e' : Engine} (asked : QueryOutcome c q scope e (.error err) e') :
      GraphOutcome c q scope e (.error err) e'
  | made {result : QueryResult} {data : GraphData} {e₁ e' : Engine} (asked : QueryOutcome c q scope e (.ok result) e₁)
      (graph : data = .ofParts result.symbols
        (e₁.search.index.contents.relationshipsInScope scope ++ result.relationships))
      (adds : Adds e₁ e' e₁.search.index.contents [] [(.graphData, q.cacheKey scope, encode data)]) :
      GraphOutcome c q scope e (.ok data) e'

theorem GraphOutcome.after {c : Collaborators} {q : GraphQuery} {scope : QueryScope}
    {answer : Except AtlasError GraphData} (h : Keeps e e') (ho : GraphOutcome c q scope e' answer e'') :
    GraphOutcome c q scope e answer e'' := by
  cases ho with
  | cached held decoded keeps =>
    have hheld := (h.values _ _ _ held).resolve_right List.not_mem_nil
    exact .cached hheld decoded (h.trans keeps)
  | failed asked => exact .failed (asked.after h)
  | made asked graph adds => exact .made (asked.after h) graph adds

/-- Make a graph of what a query is answered, and store it. -/
def makeGraph (c : Collaborators) (q : GraphQuery) (scope : QueryScope) (ticket : Nat) :
    Routine Engine (Except AtlasError GraphData) := do
  match ← executeQuery c q (some scope) with
  | .error e => return .error e
  | .ok result =>
    if !(← isCurrent ticket) then return .error superseded
    let relationships ← onIndex (Routine.look fun ix => ix.relationshipsInScope scope)
    if !(← isCurrent ticket) then return .error superseded
    let data := GraphData.ofParts result.symbols (relationships ++ result.relationships)
    store .graphData (q.cacheKey scope) data (Dependencies.ofGraph data)
    return .ok data

theorem makeGraph_outcome (c : Collaborators) (q : GraphQuery) (scope : QueryScope) (e : Engine) :
    let r := (makeGraph c q scope e.graphGeneration).run e
    GraphOutcome c q scope e r.1 r.2 := by
  intro r
  have hr : r = (makeGraph c q scope e.graphGeneration).run e := rfl
  rw [makeGraph, Routine.run_bind] at hr
  have hasked : QueryOutcome c q scope e _ _ := executeQuery_outcome c q (some scope) e
  generalize (executeQuery c q (some scope)).run e = x at hr hasked
  obtain ⟨answer, e₁⟩ := x
  cases answer with
  | error err =>
    rw [hr]
    exact .failed hasked
  | ok result =>
    dsimp only at hr hasked
    rw [isCurrent_bind hasked.generation, if_neg (by decide), Routine.run_bind] at hr
    obtain ⟨hrelationships, hread⟩ := readIndex_run (fun ix => ix.relationshipsInScope scope) e₁
    generalize (onIndex (Routine.look fun ix => ix.relationshipsInScope scope)).run e₁ = y at hr hrelationships hread
    obtain ⟨relationships, e₂⟩ := y
    dsimp only at hr hrelationships hread
    rw [isCurrent_bind (hread.generation.trans hasked.generation), if_neg (by decide), hrelationships] at hr
    let data := GraphData.ofParts result.symbols
      (e₁.search.index.relationshipsInScope scope ++ result.relationships)
    have hadds := hread.after (store_run .graphData (q.cacheKey scope) data (Dependencies.ofGraph data) e₂)
    rw [hread.index] at hadds
    rw [hr]
    exact .made hasked rfl hadds

/-- Once the request is numbered, nothing makes it give up. -/
theorem getGraphData_outcome (c : Collaborators) (q : Option GraphQuery) (scope : Option QueryScope) (e : Engine) :
    let r := (getGraphData c q scope).run e
    GraphOutcome c (q.getD everything) (scope.getD e.scope) (takeTicket.run e).2 r.1 r.2 := by
  intro r
  have hr : r = (getGraphData c q scope).run e := rfl
  rw [getGraphData, Routine.run_bind, Routine.run_bind, scopeOr_run, Routine.run_bind] at hr
  have hscope : (takeTicket.run e).2.scope = e.scope := rfl
  rw [hscope] at hr
  generalize q.getD everything = q, scope.getD e.scope = s at hr ⊢
  obtain ⟨hkeeps, hfound⟩ := lookup_run (α := GraphData) .graphData (q.cacheKey s) (takeTicket.run e).2
  generalize (onCache (Cache.getAs .graphData (q.cacheKey s) : Routine Cache (Option GraphData))).run
    (takeTicket.run e).2 = l at hr hkeeps hfound
  obtain ⟨found, e₁⟩ := l
  have hticket : e₁.graphGeneration = (takeTicket.run e).1 := hkeeps.generation
  dsimp only at hr hkeeps hfound
  rw [isCurrent_bind hticket, if_neg (by decide)] at hr
  cases found with
  | some found =>
    obtain ⟨data, hdata, hdecode⟩ := hfound found rfl
    rw [hr]
    exact .cached hdata hdecode hkeeps
  | none =>
    have hr : r = (makeGraph c q s (takeTicket.run e).1).run e₁ := hr
    rw [hr, ← hticket]
    exact (makeGraph_outcome c q s e₁).after hkeeps

/-- What is read is what the cache holds, or comes from the contents of the index. -/
theorem cachedRead_cases [Wire α] (place : CacheStore) (key : String) {read : Index → α}
    (hcontents : ∀ ix : Index, read ix = read ix.contents) (dependencies : α → List String) (e : Engine) :
    let r := (cachedRead place key read dependencies).run e
    let value := read e.search.index.contents
    (∃ data found, e.cache.Holds place key data ∧ decode? data = some found ∧ r.1 = found ∧ Keeps e r.2) ∨
    (r.1 = value ∧ Adds e r.2 e.search.index.contents [] [(place, key, encode value)]) := by
  intro r value
  have hr : r = (cachedRead place key read dependencies).run e := rfl
  rw [cachedRead, Routine.run_bind] at hr
  obtain ⟨hkeeps, hfound⟩ := lookup_run (α := α) place key e
  generalize (onCache (Cache.getAs place key : Routine Cache (Option α))).run e = l at hr hkeeps hfound
  obtain ⟨found, e₁⟩ := l
  cases found with
  | some found =>
    obtain ⟨data, hdata, hdecode⟩ := hfound found rfl
    exact .inl ⟨data, found, hdata, hdecode, by rw [hr]; rfl, by rw [hr]; exact hkeeps⟩
  | none =>
    right
    dsimp only at hr hkeeps
    rw [Routine.run_bind] at hr
    obtain ⟨hvalue, hread⟩ := readIndex_run read e₁
    rw [hcontents, hkeeps.index] at hvalue
    generalize (onIndex (Routine.look read)).run e₁ = y at hr hvalue hread
    obtain ⟨found, e₂⟩ := y
    dsimp only at hvalue hread
    subst hvalue
    have hadds := (hkeeps.trans hread).after (store_run place key value (dependencies value) e₂)
    rw [hread.index, hkeeps.index] at hadds
    exact ⟨by rw [hr]; rfl, by rw [hr]; exact hadds⟩

/-! ### Writes -/

/-- A call has come to this index, and nothing that derives from an index is left. -/
structure Drops (e e' : Engine) (ix : Index) : Prop where
  index : e'.search.index.contents = ix
  results : e'.search.results.entries = []
  values : ∀ place key data, e'.cache.Holds place key data → place ∉ indexDerivedStores
  settings : e'.search.settings = e.search.settings

theorem clearStores_run (places : List CacheStore) (e : Engine) :
    let e' := ((clearStores places).run e).2
    e'.search = e.search ∧ ∀ place key data, e'.cache.Holds place key data →
      place ∉ places ∧ e.cache.Holds place key data := by
  induction places generalizing e with
  | nil => exact ⟨rfl, fun _ _ _ h => ⟨List.not_mem_nil, h⟩⟩
  | cons place rest ih =>
    obtain ⟨hsearch, hvalues⟩ := ih (e.withCache (Cache.clearStore place e.cache))
    refine ⟨hsearch, fun place' key data h => ?_⟩
    obtain ⟨hrest, hold⟩ := hvalues place' key data h
    have hold : (Cache.clearStore place e.cache).Holds place' key data := hold
    have hne : place' ≠ place := by
      rintro rfl
      exact Cache.not_holds_clearStore hold
    exact ⟨by simp [hne, hrest], Cache.shrinks_clear (some place) e.cache _ _ _ hold⟩

theorem dropIndexDerived_run (e : Engine) : Drops e (dropIndexDerived.run e).2 e.search.index.contents := by
  obtain ⟨hsearch, hvalues⟩ := clearStores_run indexDerivedStores ((onSearch Search.clearResults).run e).2
  have hrun : (dropIndexDerived.run e).2 =
      ((clearStores indexDerivedStores).run ((onSearch Search.clearResults).run e).2).2 := rfl
  rw [← hrun] at hsearch hvalues
  refine ⟨?_, ?_, fun place key data h => (hvalues place key data h).1, ?_⟩ <;> rw [hsearch] <;> rfl

/-- A routine on the index. -/
theorem onIndex_run (r : Routine Index α) (e : Engine) :
    let x := (onIndex r).run e
    x.1 = (r.runWith Index.tidy e.search.index).1 ∧
      x.2.search.index = (r.runWith Index.tidy e.search.index).2 ∧
      x.2.search.results = e.search.results ∧ x.2.search.settings = e.search.settings := by
  obtain ⟨hanswer, hsearch⟩ := onSearch_run (Search.onIndex r) e
  obtain ⟨hanswer', hindex⟩ := Search.runWith_onIndex r e.search
  obtain ⟨hresults, hsettings⟩ := Search.onIndex_frame r e.search
  rw [← hsearch] at hindex hresults hsettings
  exact ⟨hanswer.trans hanswer', hindex, hresults, hsettings⟩

theorem buildIndex_cases (c : Collaborators) (scope : Option QueryScope) (e : Engine) :
    let r := (buildIndex c scope).run e
    (∃ err, r.1 = .error err ∧ Keeps e r.2) ∨
    ∃ summary made, r.1 = .ok summary ∧ made.Covered ∧ Drops e r.2 made := by
  intro r
  have hr : r = (buildIndex c scope).run e := rfl
  rw [buildIndex, Routine.run_bind, scopeOr_run, Routine.run_bind] at hr
  dsimp only at hr
  generalize scope.getD e.scope = s at hr
  obtain ⟨hanswer, hindex, hresults, hsettings⟩ := onIndex_run (Index.build c.provider c.resolver s) e
  have hframe := onSearch_frame (Search.onIndex (Index.build c.provider c.resolver s)) e
  have hcases := Index.build_cases c.provider c.resolver s e.search.index
  dsimp only at hcases
  rw [← hanswer, ← hindex] at hcases
  change SearchFrame e ((onIndex (Index.build c.provider c.resolver s)).run e).2 at hframe
  generalize (onIndex (Index.build c.provider c.resolver s)).run e = x at hr hresults hsettings hframe hcases
  obtain ⟨answer, e₁⟩ := x
  dsimp only at hr hresults hsettings hframe hcases
  obtain ⟨err, -, rfl, hsame⟩ | ⟨summary, made, hmade, rfl, hcontents⟩ := hcases
  · refine .inl ⟨err, by rw [hr]; rfl, ?_⟩
    rw [hr]
    exact hframe.keeps ⟨by rw [hsame], hresults, hsettings⟩
  · refine .inr ⟨summary, made, by rw [hr]; rfl, Index.built_covered hmade, ?_⟩
    have hdrops := dropIndexDerived_run e₁
    rw [hr]
    exact ⟨hdrops.index.trans hcontents, hdrops.results, hdrops.values, hdrops.settings.trans hsettings⟩

theorem updateIndex_run (c : Collaborators) (uris : List String) {e : Engine} (h : e.search.index.contents.Covered) :
    ∃ ix, ix.Covered ∧ Drops e ((updateIndex c uris).run e).2 ix := by
  obtain ⟨-, hindex, -, hsettings⟩ := onIndex_run (Index.update c.provider uris) e
  have hdrops := dropIndexDerived_run ((onIndex (Index.update c.provider uris)).run e).2
  refine ⟨_, ?_, hdrops.index, hdrops.results, hdrops.values, hdrops.settings.trans hsettings⟩
  rw [hindex]
  exact Index.update_covered c.provider uris ⟨h.symbols, h.relationships, h.unrated⟩

theorem clearIndex_run (e : Engine) : Drops e (clearIndex.run e).2 {} := by
  have hdrops := dropIndexDerived_run ((onSearch Search.clearIndex).run e).2
  exact ⟨hdrops.index, hdrops.results, hdrops.values, hdrops.settings⟩

theorem clearResults_run (e : Engine) : Keeps e ((onSearch Search.clearResults).run e).2 :=
  ⟨rfl, fun _ h => (List.not_mem_nil h).elim, fun _ _ _ h => .inl h, rfl, rfl⟩

theorem clearCache_run (place : Option CacheStore) (e : Engine) : Keeps e ((clearCache place).run e).2 := by
  have hclear : Keeps e ((changeCache (Cache.clear place)).run e).2 :=
    keeps_withCache (Cache.shrinks_clear place e.cache)
  cases place with
  | none => exact hclear.trans (clearResults_run _)
  | some place =>
    cases place with
    | queryResult => exact hclear.trans (clearResults_run _)
    | _ => exact hclear

/-- Clearing everything leaves nothing that derives from the index. -/
theorem clearCache_none_run (e : Engine) : Drops e ((clearCache none).run e).2 e.search.index.contents :=
  ⟨rfl, rfl, fun _ _ _ ⟨_, h, _⟩ => (List.not_mem_nil h).elim, rfl⟩

theorem optimizeCache_run (e : Engine) : Keeps e (optimizeCache.run e).2 :=
  keeps_withCache (Cache.shrinks_evictAll _ e.cache)

/-! ### Time -/

theorem tick_keeps (e : Engine) (due : Nat × Due) : Keeps e (e.tick due) := by
  obtain ⟨moment, due⟩ := due
  cases due with
  | cleanup =>
    have hmoment : Cache.Shrinks e.cache (e.cache.atMoment moment) := .refl e.cache
    exact keeps_withCache (hmoment.trans (Cache.shrinks_evictAll _ _))
  | metrics => exact ⟨rfl, fun _ h => .inl h, fun _ _ _ h => .inl h, rfl, rfl⟩

theorem ticks_keep (dues : List (Nat × Due)) (e : Engine) : Keeps e (dues.foldl tick e) := by
  induction dues generalizing e with
  | nil => exact .refl e
  | cons due rest ih => exact (tick_keeps e due).trans (ih _)

theorem elapse_keeps (ms : Nat) (e : Engine) : Keeps e (e.elapse ms) :=
  (ticks_keep (e.dueUntil (e.cache.clock.now + ms)) e).trans
    ⟨rfl, fun _ h => .inl h, fun _ _ _ h => .inl h, rfl, rfl⟩

end Engine

end CodeAtlas
