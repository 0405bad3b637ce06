import CodeAtlas.Proofs.Engine.Requests
import CodeAtlas.Proofs.Engine.Transparency

/-! What reads are answered from while the index changes.

A read looks at the index, and what it finds may be kept and found again by other reads.
So an answer is made of the contents the index had at some moments (`AnsweredFrom`). As
long as all that is kept is made of contents the index had from a certain moment on
(`Fresh`), so is every answer. That is the case once what derives from the index has been
dropped while nobody was reading (`fresh_after_quiet_drop`). A read that was under way in
the meantime may keep what it found before, for all later reads to find. -/
namespace CodeAtlas
open Json

variable {α : Type} {P : Index → Prop} {limit : Int} {home : QueryScope}

/-! ### Answers and what they are made of -/

namespace GraphQuery

/-- The answer from the symbols of one index and the relationships of another: a query
reads them one after the other. -/
def answerAcross (q : GraphQuery) (limit : Int) (scope : QueryScope) (ix ix' : Index) : QueryResult :=
  let q := q.normalize limit
  let scope := q.effectiveScope scope
  q.answer (q.candidates ix scope) (ix'.relationshipsInScope scope)

def AnsweredFrom (P : Index → Prop) (limit : Int) (q : GraphQuery) (scope : QueryScope) (r : QueryResult) : Prop :=
  ∃ ix ix', P ix ∧ P ix' ∧ r.plain = q.answerAcross limit scope ix ix'

def DrawnFrom (P : Index → Prop) (limit : Int) (q : GraphQuery) (scope : QueryScope) (data : GraphData) : Prop :=
  ∃ r ix, q.AnsweredFrom P limit scope r ∧ P ix ∧
    data = .ofParts r.symbols (ix.relationshipsInScope scope ++ r.relationships)

variable {q : GraphQuery} {scope : QueryScope} {r : QueryResult}

theorem AnsweredFrom.unrated (hP : ∀ ix, P ix → ix.Unrated) (h : q.AnsweredFrom P limit scope r) :
    ∀ x ∈ r.relationships, x.IsUnrated := by
  obtain ⟨ix, ix', -, hix', hr⟩ := h
  intro x hx
  have hx : x ∈ r.plain.relationships := hx
  rw [hr] at hx
  exact (hP ix' hix').inScope _ x (mem_answer hx)

end GraphQuery

/-- An answer is made of these contents of an index, or it is an error. -/
def EngineRead.AnsweredFrom (P : Index → Prop) (limit : Int) (home : QueryScope) : EngineRead → EngineAnswer → Prop
  | query q scope, .found (.ok r) => q.AnsweredFrom P limit (scope.getD home) r
  | graph q scope, .graph (.ok data) => (q.getD Engine.everything).DrawnFrom P limit (scope.getD home) data
  | symbols uri, .symbols xs => ∃ ix, P ix ∧ xs = ix.fileSymbols uri
  | relationships uri, .relationships rs => ∃ ix, P ix ∧ rs = ix.fileRelationships uri
  | query _ _, .found (.error _) | graph _ _, .graph (.error _) => True
  | _, _ => False

/-! ### What is kept -/

/-- A result kept for a query in a scope. -/
def FreshResult (P : Index → Prop) (limit : Int) (key : String) (r : QueryResult) : Prop :=
  ∀ (q : GraphQuery) scope, key = q.cacheKey scope → q.AnsweredFrom P limit scope r

/-- Graph data kept for a query in a scope. -/
def FreshGraph (P : Index → Prop) (limit : Int) (key : String) (data : GraphData) : Prop :=
  ∀ (q : GraphQuery) scope, key = q.cacheKey scope → q.DrawnFrom P limit scope data

/-- A value in one of the stores, if it can be read. -/
def FreshValue (P : Index → Prop) (limit : Int) : CacheStore → String → Json → Prop
  | .symbols, key, data => ∀ v, decode? data = some v → ∃ ix, P ix ∧ v = ix.fileSymbols key
  | .relationships, key, data => ∀ v, decode? data = some v → ∃ ix, P ix ∧ v = ix.fileRelationships key
  | .queryResult, key, data => ∀ v, decode? data = some v → FreshResult P limit key v
  | .graphData, key, data => ∀ v, decode? data = some v → FreshGraph P limit key v
  | .layout, _, _ | .references, _, _ => True

structure Search.Fresh (P : Index → Prop) (limit : Int) (s : Search) : Prop where
  settings : s.settings.limit = limit
  unrated : s.index.Unrated
  results : ∀ p ∈ s.results.entries, FreshResult P limit p.1 p.2

structure Engine.Fresh (P : Index → Prop) (limit : Int) (home : QueryScope) (e : Engine) : Prop where
  scope : e.scope = home
  search : e.search.Fresh P limit
  values : e.cache.HoldsOnly (FreshValue P limit)

/-! ### Searches -/

namespace Search

/-- The index of the search has such contents. -/
def Now (P : Index → Prop) (s : Search) : Prop := P s.index.contents

theorem onIndex_ensures {r : Routine Index α} {Q : α → Prop}
    (hr : r.Ensures Index.Unrated (fun ix => P ix.contents) Q) : (onIndex r).Ensures (Fresh P limit) (Now P) Q :=
  Routine.ensures_within hr (fun _ hs hP => ⟨hs.unrated, hP⟩) fun _ _ hs hix => ⟨hs.settings, hix, hs.results⟩

/-- What is read from the index is read from its contents at that moment. -/
theorem look_ensures {f : Index → α} (hf : ∀ ix : Index, f ix = f ix.contents) :
    (onIndex (Routine.look f)).Ensures (Fresh P limit) (Now P) fun v => ∃ ix, P ix ∧ v = f ix :=
  onIndex_ensures (Routine.ensures_look fun ix _ hP => ⟨ix.contents, hP, hf ix⟩)

variable {q : GraphQuery} {scope : QueryScope} {provider : Provider} {resolver : Resolver}

/-- A query that was answered, and in a time that can be written. -/
def Told (P : Index → Prop) (limit : Int) (q : GraphQuery) (scope : QueryScope)
    (answer : Except AtlasError QueryResult) : Prop :=
  ∀ r, answer = .ok r → q.AnsweredFrom P limit scope r ∧ r.executionTimeMs.isFinite = true

theorem freshResult_cacheKey {r : QueryResult} (h : q.AnsweredFrom P limit scope r) :
    FreshResult P limit (q.cacheKey scope) r := by
  intro q' scope' hkey
  obtain ⟨rfl, rfl⟩ := GraphQuery.eq_of_cacheKey_eq hkey
  exact h

theorem Fresh.remember {s : Search} {r : QueryResult} (hs : s.Fresh P limit) (hr : q.AnsweredFrom P limit scope r) :
    (remember (q.cacheKey scope) r s).Fresh P limit := by
  refine ⟨hs.settings, hs.unrated, fun p hp => ?_⟩
  rcases ResultCache.mem_insert hp with rfl | hp
  · exact freshResult_cacheKey hr
  · exact hs.results p hp

theorem read_ensures :
    (read (q.normalize limit) scope).Ensures (Fresh P limit) (Now P) fun r => q.AnsweredFrom P limit scope r ∧ r.plain = r := by
  refine Routine.ensures_bind (look_ensures fun _ => rfl) fun symbols hsymbols => ?_
  refine Routine.ensures_bind (look_ensures fun _ => rfl) fun relationships hrelationships => ?_
  obtain ⟨ix, hix, rfl⟩ := hsymbols
  obtain ⟨ix', hix', rfl⟩ := hrelationships
  have hplain := GraphQuery.plain_answer (q.normalize limit)
    ((q.normalize limit).candidates ix ((q.normalize limit).effectiveScope scope))
    (ix'.relationshipsInScope ((q.normalize limit).effectiveScope scope))
  exact ⟨⟨ix, ix', hix, hix', hplain⟩, hplain⟩

theorem answerNow_ensures :
    (answerNow limit q scope (q.cacheKey scope)).Ensures (Fresh P limit) (Now P) (Told P limit q scope) := by
  refine Routine.ensures_bind read_ensures fun r hr => ?_
  have hkeep : (Routine.change (remember (q.cacheKey scope) r)).Ensures (Fresh P limit) (Now P) fun _ => True :=
    Routine.ensures_atomic fun s hs _ => ⟨hs.remember hr.1, trivial⟩
  refine Routine.ensures_bind hkeep fun _ _ v hv => ?_
  obtain rfl := Except.ok.inj hv
  refine ⟨hr.1, ?_⟩
  rw [← hr.2]
  exact finite_zero

theorem fillAndAnswer_ensures :
    (fillAndAnswer provider resolver limit q scope).Ensures (Fresh P limit) (Now P) (Told P limit q scope) := by
  refine Routine.ensures_bind (look_ensures fun _ => rfl) fun isEmpty _ => ?_
  cases isEmpty with
  | false => exact answerNow_ensures
  | true =>
    have hbuild : (Index.build provider resolver scope).Ensures Index.Unrated (fun ix => P ix.contents) fun _ => True :=
      (Index.build_does_unrated provider resolver scope).ensures fun _ _ h => h
    refine Routine.ensures_bind (onIndex_ensures hbuild) fun built _ => ?_
    cases built with
    | error err => exact fun r hr => by cases hr
    | ok summary => exact answerNow_ensures

theorem answerAnew_ensures :
    (answerAnew provider resolver q scope).Ensures (Fresh P limit) (Now P) (Told P limit q scope) := by
  unfold answerAnew
  split
  · exact fun r hr => by cases hr
  · have hlimit : (Routine.look fun s : Search => s.settings.limit).Ensures (Fresh P limit) (Now P) (· = limit) :=
      Routine.ensures_look fun s hs _ => hs.settings
    refine Routine.ensures_bind hlimit fun found hfound => ?_
    subst hfound
    exact fillAndAnswer_ensures

theorem execute_ensures :
    (execute provider resolver q scope).Ensures (Fresh P limit) (Now P) (Told P limit q scope) := by
  have hrecall : (Routine.atomic (recallResult (q.cacheKey scope))).Ensures (Fresh P limit) (Now P)
      fun found => ∀ r, found = some r → q.AnsweredFrom P limit scope r ∧ r.executionTimeMs.isFinite = true := by
    refine Routine.ensures_atomic fun s hs _ => ?_
    unfold recallResult
    cases hget : s.results.get? (q.cacheKey scope) with
    | none => exact ⟨hs, fun r hr => by cases hr⟩
    | some found =>
      refine ⟨⟨hs.settings, hs.unrated, hs.results⟩, fun r hr => ?_⟩
      obtain rfl := Option.some.inj hr
      exact ⟨hs.results _ (ResultCache.mem_of_get? hget) q scope rfl, finite_zero⟩
  refine Routine.ensures_bind hrecall fun found hfound => ?_
  cases found with
  | some r => exact fun v hv => hfound v (congrArg some (Except.ok.inj hv))
  | none => exact answerAnew_ensures

end Search

/-! ### Reads -/

namespace Engine

/-- The index of the engine has such contents. -/
def Now (P : Index → Prop) (e : Engine) : Prop := P e.search.index.contents

variable {Q : α → Prop}

theorem onSearch_ensures {r : Routine Search α} (hr : r.Ensures (Search.Fresh P limit) (Search.Now P) Q) :
    (onSearch r).Ensures (Fresh P limit home) (Now P) Q :=
  Routine.ensures_within hr (fun _ he hP => ⟨he.search, hP⟩) fun _ _ he hs =>
    ⟨he.scope, ⟨hs.settings, hs.unrated, hs.results⟩, he.values⟩

theorem onCache_ensures {r : Routine Cache α}
    (hr : r.Ensures (Cache.HoldsOnly (FreshValue P limit)) (fun _ => True) Q) :
    (onCache r).Ensures (Fresh P limit home) (Now P) Q :=
  Routine.ensures_within hr (fun _ he _ => ⟨he.values, trivial⟩) fun _ _ he hc => ⟨he.scope, he.search, hc⟩

theorem readIndex_ensures {f : Index → α} (hf : ∀ ix : Index, f ix = f ix.contents) :
    (onIndex (Routine.look f)).Ensures (Fresh P limit home) (Now P) fun v => ∃ ix, P ix ∧ v = f ix :=
  onSearch_ensures (Search.look_ensures hf)

theorem lookup_ensures [Wire α] (place : CacheStore) (key : String) :
    (onCache (Cache.getAs place key : Routine Cache (Option α))).Ensures (Fresh P limit home) (Now P)
      fun found => ∀ v, found = some v → ∃ data, FreshValue P limit place key data ∧ decode? data = some v :=
  onCache_ensures (Cache.getAs_ensures (FreshValue P limit) place key)

theorem store_ensures [Wire α] {place : CacheStore} {key : String} {value : α} (dependencies : List String)
    (h : FreshValue P limit place key (encode value)) :
    (store place key value dependencies).Ensures (Fresh P limit home) (Now P) fun _ => True :=
  onCache_ensures (Routine.ensures_atomic fun _ hc _ => ⟨hc.set h dependencies, trivial⟩)

theorem scopeOr_ensures (scope : Option QueryScope) :
    (scopeOr scope).Ensures (Fresh P limit home) (Now P) (· = scope.getD home) := by
  cases scope with
  | none => exact Routine.ensures_look fun e he _ => he.scope
  | some s => exact rfl

theorem record_ensures (f : Metrics → Metrics) :
    (record f).Ensures (Fresh P limit home) (Now P) fun _ => True :=
  Routine.ensures_atomic fun _ he _ => ⟨⟨he.scope, he.search, he.values⟩, trivial⟩

theorem announce_ensures (event : GraphEvent) :
    (announce event).Ensures (Fresh P limit home) (Now P) fun _ => True :=
  Routine.ensures_atomic fun _ he _ => ⟨⟨he.scope, he.search, he.values⟩, trivial⟩

theorem isCurrent_ensures (ticket : Nat) :
    (isCurrent ticket).Ensures (Fresh P limit home) (Now P) fun _ => True :=
  Routine.ensures_look fun _ _ _ => trivial

variable {c : Collaborators} {q : GraphQuery} {scope : QueryScope}

theorem askSearch_ensures (hP : ∀ ix, P ix → ix.Unrated) :
    (askSearch c q scope).Ensures (Fresh P limit home) (Now P)
      fun answer => ∀ r, answer = .ok r → q.AnsweredFrom P limit scope r := by
  refine Routine.ensures_bind (onSearch_ensures Search.execute_ensures) fun answer hanswer => ?_
  cases answer with
  | error err => exact fun r hr => by cases hr
  | ok result =>
    obtain ⟨hfrom, hfinite⟩ := hanswer result rfl
    have hvalue : FreshValue P limit .queryResult (q.cacheKey scope) (encode result) :=
      forall_decode (decode?_encode_queryResult (hfrom.unrated hP) hfinite) (Search.freshResult_cacheKey hfrom)
    refine Routine.ensures_bind (store_ensures _ hvalue) fun _ _ => ?_
    refine Routine.ensures_bind (record_ensures _) fun _ _ r hr => ?_
    exact Except.ok.inj hr ▸ hfrom

theorem executeQuery_ensures (hP : ∀ ix, P ix → ix.Unrated) (scope : Option QueryScope) :
    (executeQuery c q scope).Ensures (Fresh P limit home) (Now P)
      fun answer => ∀ r, answer = .ok r → q.AnsweredFrom P limit (scope.getD home) r := by
  refine Routine.ensures_bind (scopeOr_ensures scope) fun s hs => ?_
  subst hs
  refine Routine.ensures_bind (lookup_ensures .queryResult (q.cacheKey (scope.getD home))) fun found hfound => ?_
  cases found with
  | none => exact askSearch_ensures hP
  | some r =>
    obtain ⟨data, hdata, hdecode⟩ := hfound r rfl
    have hfrom : q.AnsweredFrom P limit (scope.getD home) r := hdata r hdecode q (scope.getD home) rfl
    refine Routine.ensures_bind (announce_ensures _) fun _ _ => ?_
    refine Routine.ensures_bind (record_ensures _) fun _ _ v hv => ?_
    exact Except.ok.inj hv ▸ hfrom

theorem makeGraph_ensures (hP : ∀ ix, P ix → ix.Unrated) (ticket : Nat) :
    (makeGraph c q scope ticket).Ensures (Fresh P limit home) (Now P)
      fun answer => ∀ data, answer = .ok data → q.DrawnFrom P limit scope data := by
  refine Routine.ensures_bind (executeQuery_ensures hP (some scope)) fun answer hanswer => ?_
  cases answer with
  | error err => exact fun data h => by cases h
  | ok result =>
    have hfrom : q.AnsweredFrom P limit scope result := hanswer result rfl
    refine Routine.ensures_bind (isCurrent_ensures ticket) fun current _ => ?_
    cases current with
    | false => exact fun data h => by cases h
    | true =>
      refine Routine.ensures_bind (readIndex_ensures fun _ => rfl) fun relationships hrelationships => ?_
      obtain ⟨ix, hix, rfl⟩ := hrelationships
      refine Routine.ensures_bind (isCurrent_ensures ticket) fun current _ => ?_
      cases current with
      | false => exact fun data h => by cases h
      | true =>
        let data := GraphData.ofParts result.symbols (ix.relationshipsInScope scope ++ result.relationships)
        have hdrawn : q.DrawnFrom P limit scope data := ⟨result, ix, hfrom, hix, rfl⟩
        have hunrated : ∀ x ∈ ix.relationshipsInScope scope ++ result.relationships, x.IsUnrated := fun x hx =>
          (List.mem_append.mp hx).elim ((hP ix hix).inScope scope x) (hfrom.unrated hP x)
        have hvalue : FreshValue P limit .graphData (q.cacheKey scope) (encode data) := by
          refine forall_decode (GraphData.decode?_encode_ofParts result.symbols hunrated) fun q' scope' hkey => ?_
          obtain ⟨rfl, rfl⟩ := GraphQuery.eq_of_cacheKey_eq hkey
          exact hdrawn
        refine Routine.ensures_bind (store_ensures _ hvalue) fun _ _ v hv => ?_
        exact Except.ok.inj hv ▸ hdrawn

theorem getGraphData_ensures (hP : ∀ ix, P ix → ix.Unrated) (q : Option GraphQuery) (scope : Option QueryScope) :
    (getGraphData c q scope).Ensures (Fresh P limit home) (Now P)
      fun answer => ∀ data, answer = .ok data → (q.getD everything).DrawnFrom P limit (scope.getD home) data := by
  have hticket : takeTicket.Ensures (Fresh P limit home) (Now P) fun _ => True :=
    Routine.ensures_atomic fun _ he _ => ⟨⟨he.scope, he.search, he.values⟩, trivial⟩
  refine Routine.ensures_bind hticket fun ticket _ => ?_
  refine Routine.ensures_bind (scopeOr_ensures scope) fun s hs => ?_
  subst hs
  let key := (q.getD everything).cacheKey (scope.getD home)
  refine Routine.ensures_bind (lookup_ensures .graphData key) fun found hfound => ?_
  refine Routine.ensures_bind (isCurrent_ensures ticket) fun current _ => ?_
  cases current with
  | false => exact fun data h => by cases h
  | true =>
    cases found with
    | none => exact makeGraph_ensures hP ticket
    | some data =>
      obtain ⟨kept, hkept, hdecode⟩ := hfound data rfl
      exact fun v hv => Except.ok.inj hv ▸ hkept data hdecode _ _ rfl

theorem cachedRead_ensures [Wire α] {place : CacheStore} {key : String} {read : Index → α}
    (dependencies : α → List String) (hcontents : ∀ ix : Index, read ix = read ix.contents)
    (hvalue : ∀ data, FreshValue P limit place key data ↔ ∀ v, decode? data = some v → ∃ ix, P ix ∧ v = read ix)
    (hread : ∀ ix, P ix → decode? (encode (read ix)) = some (read ix)) :
    (cachedRead place key read dependencies).Ensures (Fresh P limit home) (Now P) fun v => ∃ ix, P ix ∧ v = read ix := by
  refine Routine.ensures_bind (lookup_ensures place key) fun found hfound => ?_
  cases found with
  | some v =>
    obtain ⟨data, hdata, hdecode⟩ := hfound v rfl
    exact (hvalue data).mp hdata v hdecode
  | none =>
    refine Routine.ensures_bind (readIndex_ensures hcontents) fun v hv => ?_
    obtain ⟨ix, hix, rfl⟩ := hv
    have hkept := (hvalue (encode (read ix))).mpr (forall_decode (hread ix hix) ⟨ix, hix, rfl⟩)
    exact Routine.ensures_bind (store_ensures _ hkept) fun _ _ => ⟨ix, hix, rfl⟩

/-- Every read is answered from contents the index had while it was kept fresh. -/
theorem read_ensures (hP : ∀ ix, P ix → ix.Unrated) (r : EngineRead) :
    (r.routine c).Ensures (Fresh P limit home) (Now P) (r.AnsweredFrom P limit home) := by
  cases r with
  | query q scope =>
    refine Routine.ensures_bind (executeQuery_ensures hP scope) fun answer hanswer => ?_
    cases answer with
    | error err => trivial
    | ok r => exact hanswer r rfl
  | graph q scope =>
    refine Routine.ensures_bind (getGraphData_ensures hP q scope) fun answer hanswer => ?_
    cases answer with
    | error err => trivial
    | ok data => exact hanswer data rfl
  | symbols uri =>
    refine Routine.ensures_bind (cachedRead_ensures _ (fun _ => rfl) (fun _ => Iff.rfl) fun ix _ => ?_) fun _ h => h
    exact decode?_encode _
  | relationships uri =>
    refine Routine.ensures_bind (cachedRead_ensures _ (fun _ => rfl) (fun _ => Iff.rfl) fun ix hix => ?_) fun _ h => h
    exact Json.decode?_encode_list fun x hx => decode?_encode_relationship ((hP ix hix).ofFile uri x hx)

/-! ### Runs -/

theorem Fresh.lets {e e' : Engine} (h : e.Fresh P limit home) (hl : Lets e e') : e'.Fresh P limit home where
  scope := hl.scope.trans h.scope
  search := ⟨by rw [hl.settings, h.search.settings], hl.unrated h.search.unrated, fun p hp => h.search.results p (hl.results hp)⟩
  values := h.values.shrinks hl.values

/-- What a request promises: a read is answered from such contents. -/
def Promised (P : Index → Prop) (limit : Int) (home : QueryScope) (request : EngineRequest) (answer : EngineAnswer) : Prop :=
  ∀ r, request.call = .read r → r.AnsweredFrom P limit home answer

theorem request_ensures (hP : ∀ ix, P ix → ix.Unrated) (request : EngineRequest) :
    (system.routine request).Ensures (Fresh P limit home) (Now P) (Promised P limit home request) := by
  cases hread : request.call.isRead with
  | false =>
    have hlets := (call_lets request hread).ensures (C := Now P) fun e e' hl (he : e.Fresh P limit home) => he.lets hl
    refine hlets.mono fun _ _ r hr => ?_
    rw [hr] at hread
    cases hread
  | true =>
    obtain ⟨c, call⟩ := request
    cases call with
    | read r => exact (read_ensures hP r).mono fun _ h r' hr' => EngineCall.read.inj hr' ▸ h
    | buildIndex scope | updateIndex uris | clearIndex | clearCache place | optimizeCache => cases hread

section Moments

variable {config : AtlasConfig} {clock : Clock} {moves : List (System.Move EngineRequest EngineEvent)}

theorem fresh_ofConfig : (ofConfig config clock).Fresh P config.query.limit config.scope where
  scope := rfl
  search := ⟨rfl, fun _ h => (List.not_mem_nil h).elim, fun _ h => (List.not_mem_nil h).elim⟩
  values := fun _ _ _ ⟨_, h, _⟩ => (List.not_mem_nil h).elim

/-- What holds of an engine at every moment: its settings are as configured, and its
index has no rated relationships. -/
theorem moment_fresh (n : Nat) :
    (moment config clock moves n).state.Fresh Index.Unrated config.query.limit config.scope := by
  have hrun := @System.run_ensures _ _ _ _ system (Fresh Index.Unrated config.query.limit config.scope)
    (Now Index.Unrated) (Promised Index.Unrated config.query.limit config.scope) (ofConfig config clock) (moves.take n) 0
    fresh_ofConfig (fun _ h => (List.not_mem_nil h).elim) (request_ensures fun _ h => h)
    (fun e event he => he.lets (outside_lets event e)) fun _ _ he => he.search.unrated
  exact hrun.1

/-- When nothing that derives from the index is kept, all that is kept is fresh. -/
theorem Emptied.fresh {e : Engine} (h : Emptied e) {P' : Index → Prop} (he : e.Fresh P' limit home) :
    e.Fresh P limit home := by
  refine ⟨he.scope, ⟨he.search.settings, he.search.unrated, fun p hp => ?_⟩, fun place key data hd => ?_⟩
  · rw [h.results] at hp
    cases hp
  · have hplace := h.values place key data hd
    cases place with
    | layout | references => trivial
    | symbols | relationships | queryResult | graphData => exact absurd (by decide) hplace

/-- The contents of the index at the moments from a certain one on. -/
def contentsFrom (config : AtlasConfig) (clock : Clock) (moves : List (System.Move EngineRequest EngineEvent))
    (start : Nat) (ix : Index) : Prop :=
  ∃ n, start ≤ n ∧ (moment config clock moves n).state.search.index.contents = ix

/-- A request has changed the index and then dropped what derives from it. If no read was
under way in the time it took to drop it, then all reads that begin after the request was
answered are answered from contents the index has had since. -/
theorem fresh_after_quiet_drop (config : AtlasConfig) (clock : Clock)
    (moves : List (System.Move EngineRequest EngineEvent)) (returned k : Nat)
    (c : System.Call Engine EngineRequest EngineAnswer) (answer : EngineAnswer)
    (hc : (moment config clock moves returned).calls[k]? = some c) (hdone : c.rest.answer? = some answer)
    (hchanged : c.request.call.Changed answer) :
    ∃ dropping ≤ returned,
      (∃ c', (moment config clock moves dropping).calls[k]? = some c' ∧ BeginsToDrop c'.rest) ∧
      ((∀ n, dropping ≤ n → n ≤ returned → isQuiet (moment config clock moves n) = true) →
        ∀ i d r a, (moment config clock moves returned).calls.length ≤ i →
          (system.run (ofConfig config clock) moves).calls[i]? = some d → d.request.call = .read r →
          d.rest.answer? = some a →
          r.AnsweredFrom (contentsFrom config clock moves returned) config.query.limit config.scope a) := by
  have hpassed := System.run_passes call_passes (ofConfig config clock) moves returned k hc
  rw [Routine.eq_done_of_answer? hdone] at hpassed
  obtain hpasses | ⟨dropping, hle, c', hc', -, hbegins⟩ := hpassed
  · -- A request that is answered has nothing left to drop.
    cases hpasses with
    | here h =>
      obtain ⟨f, hf⟩ := h
      cases hf
    | done h => exact absurd hchanged h
  refine ⟨dropping, hle, ⟨c', hc', hbegins⟩, fun hquiet i d r a hi hd hr ha => ?_⟩
  let P := contentsFrom config clock moves returned
  let J := Fresh P config.query.limit config.scope
  have hunrated : ∀ ix, P ix → ix.Unrated := by
    rintro ix ⟨n, -, rfl⟩
    exact (moment_fresh n).search.unrated
  have hbegin : J (moment config clock moves returned).state :=
    (emptied_of_quiet hle hc' hbegins hquiet hc hdone).fresh (moment_fresh returned)
  have hunder : ∀ c ∈ (moment config clock moves returned).calls, c.rest.Ensures J (Now P) fun _ => True :=
    fun c hc => (rest_lets (hquiet returned hle (Nat.le_refl _)) hc).ensures fun _ _ hl he => he.lets hl
  have hrun := System.run_ensures hbegin hunder (request_ensures hunrated)
    (fun e event he => he.lets (outside_lets event e)) fun n hn _ => ⟨n, hn, rfl⟩
  have hanswer := hrun.2 i d hi hd
  rw [Routine.eq_done_of_answer? ha] at hanswer
  exact hanswer r hr

end Moments

/-! ### A read before and after -/

/-- The answer of a call, if it is done. -/
def answered? (w : System.World Engine EngineRequest EngineAnswer) (k : Nat) : Option EngineAnswer :=
  w.calls[k]?.bind (·.rest.answer?)

theorem exists_symbols_of_names {w : System.World Engine EngineRequest EngineAnswer} {k : Nat} {names : List String}
    (h : ((answered? w k).bind EngineAnswer.symbols?).map (·.map Symbol.name) = some names) :
    ∃ c symbols, w.calls[k]? = some c ∧ c.rest.answer? = some (.symbols symbols) ∧ symbols.map Symbol.name = names := by
  obtain ⟨symbols, hsymbols, hnames⟩ := Option.map_eq_some_iff.mp h
  obtain ⟨answer, hanswer, hsymbols⟩ := Option.bind_eq_some_iff.mp hsymbols
  obtain ⟨c, hc, hanswer⟩ := Option.bind_eq_some_iff.mp hanswer
  cases answer with
  | symbols found =>
    obtain rfl := Option.some.inj hsymbols
    exact ⟨c, found, hc, hanswer, hnames⟩
  | _ => cases hsymbols

/-- The file of the small workspace is asked for. -/
def askForFile : EngineRequest :=
  ⟨⟨smallWorkspace.provider, smallWorkspace.resolver, .ofSeed 0⟩, .read (.symbols "file:///a.rs")⟩

/-- A request comes in as the `k`-th, and makes its first `n` moves. -/
def served (request : EngineRequest) (k n : Nat) : List (System.Move EngineRequest EngineEvent) :=
  .start request :: List.replicate n (.go k)

/-- It is indexed, and then asked for. -/
def readAfterUpdate : List (System.Move EngineRequest EngineEvent) :=
  served ⟨askForFile.collaborators, .updateIndex ["file:///a.rs"]⟩ 0 9 ++ served askForFile 1 3

theorem read_after_update_is_fresh :
    let w := system.run (ofConfig {} {}) readAfterUpdate
    ∃ d symbols, w.calls[1]? = some d ∧ d.rest.answer? = some (.symbols symbols) ∧ symbols.map Symbol.name = ["f"] ∧
      ∃ ix, contentsFrom {} {} readAfterUpdate 10 ix ∧ symbols = ix.fileSymbols "file:///a.rs" := by
  intro w
  have hdone : (answered? (moment {} {} readAfterUpdate 10) 0).isSome = true := by decide +kernel
  have hread : ((answered? w 1).bind EngineAnswer.symbols?).map (·.map Symbol.name) = some ["f"] := by decide +kernel
  have hquiet : ∀ n < 11, isQuiet (moment {} {} readAfterUpdate n) = true := by decide +kernel
  obtain ⟨answer, hanswer⟩ := Option.isSome_iff_exists.mp hdone
  obtain ⟨c, hc, hanswer⟩ := Option.bind_eq_some_iff.mp hanswer
  obtain ⟨d, symbols, hd, hsymbols, hnames⟩ := exists_symbols_of_names hread
  have hupdate : c.request.call = .updateIndex ["file:///a.rs"] := by
    have hcall : (moment {} {} readAfterUpdate 10).calls[0]?.map (·.request.call) =
        some (.updateIndex ["file:///a.rs"]) := rfl
    rw [hc] at hcall
    exact Option.some.inj hcall
  have hchanged : c.request.call.Changed answer := by
    rw [hupdate]
    trivial
  have hask : d.request.call = .read (.symbols "file:///a.rs") := by
    have hcall : w.calls[1]?.map (·.request.call) = some (.read (.symbols "file:///a.rs")) := rfl
    rw [hd] at hcall
    exact Option.some.inj hcall
  obtain ⟨dropping, -, -, hfresh⟩ := fresh_after_quiet_drop {} {} readAfterUpdate 10 0 c answer hc hanswer hchanged
  have hfrom := hfresh (fun n _ hn => hquiet n (Nat.lt_succ_of_le hn)) 1 d _ _ (by decide +kernel) hd hask hsymbols
  exact ⟨d, symbols, hd, hsymbols, hnames, hfrom⟩

/-- The file is indexed, and asked for. Before the answer is kept the index is cleared, and
then the file is asked for again. -/
def lateStore : List (System.Move EngineRequest EngineEvent) :=
  served ⟨askForFile.collaborators, .buildIndex none⟩ 0 9 ++ served askForFile 1 2 ++
    served ⟨askForFile.collaborators, .clearIndex⟩ 2 7 ++ System.Move.go 1 :: served askForFile 3 3

/-- The second time the file is answered with the symbols it had before, while the index
has had none since it was cleared. -/
theorem late_store_is_read :
    let w := system.run (ofConfig {} {}) lateStore
    let cleared := moment {} {} lateStore 21
    cleared.calls.length = 3 ∧ cleared.calls[2]?.map (·.request.call) = some .clearIndex ∧
      (answered? cleared 2).isSome = true ∧
      (∀ ix, contentsFrom {} {} lateStore 21 ix → ix.fileSymbols "file:///a.rs" = []) ∧
      ∃ d symbols, w.calls[3]? = some d ∧ d.rest.answer? = some (.symbols symbols) ∧
        symbols.map Symbol.name = ["f"] ∧
        ¬∃ ix, contentsFrom {} {} lateStore 21 ix ∧ symbols = ix.fileSymbols "file:///a.rs" := by
  intro w cleared
  have hnone : ∀ n < 27, 21 ≤ n →
      ((moment {} {} lateStore n).state.search.index.fileSymbols "file:///a.rs").isEmpty = true := by decide +kernel
  have hlast : ∀ n, 26 ≤ n → moment {} {} lateStore n = moment {} {} lateStore 26 := by
    intro n hn
    rw [moment, moment, List.take_of_length_le (show lateStore.length ≤ n from hn)]
    rfl
  have hsince : ∀ ix, contentsFrom {} {} lateStore 21 ix → ix.fileSymbols "file:///a.rs" = [] := by
    rintro ix ⟨n, hn, rfl⟩
    by_cases hlate : n < 27
    · exact List.isEmpty_iff.mp (hnone n hlate hn)
    · rw [hlast n (by omega)]
      exact List.isEmpty_iff.mp (hnone 26 (by decide) (by decide))
  have hread : ((answered? w 3).bind EngineAnswer.symbols?).map (·.map Symbol.name) = some ["f"] := by decide +kernel
  obtain ⟨d, symbols, hd, hsymbols, hnames⟩ := exists_symbols_of_names hread
  refine ⟨by decide +kernel, rfl, by decide +kernel, hsince, d, symbols, hd, hsymbols, hnames, ?_⟩
  rintro ⟨ix, hix, rfl⟩
  rw [hsince ix hix] at hnames
  cases hnames

end Engine

end CodeAtlas
