import CodeAtlas.Index.MemoryProvider
import CodeAtlas.Proofs.Engine.Lasting

/-! When the two caches of an engine show.

A value is kept until what derives from the index is dropped, and every build, update
and clear of the index drops it. A query that finds the index empty fills it and drops
nothing: what was asked before, and answered with nothing, goes on being answered with
nothing. This is the only way in which an answer can differ from what an engine with
the same index and nothing in its caches answers. -/
namespace CodeAtlas

/-! ### Answers without caches -/

/-- The same index, and nothing remembered. -/
def Engine.cold (e : Engine) : Engine :=
  { e with
    cache := { e.cache with entries := [], stats := {} }
    search := { e.search with results := e.search.results.clear } }

def EngineAnswer.plain : EngineAnswer → EngineAnswer
  | .found r => .found (r.map QueryResult.plain)
  | answer => answer

namespace EngineRead

def question (e : Engine) : EngineRead → Question
  | query q scope => .query q (scope.getD e.scope)
  | graph q scope => .query (q.getD Engine.everything) (scope.getD e.scope)
  | symbols uri => .symbols uri
  | relationships uri => .relationships uri

/-- The answer of an index without files. -/
def nothing : EngineRead → EngineAnswer
  | query .. => .found (.ok {})
  | graph .. => .graph (.ok {})
  | symbols _ => .symbols []
  | relationships _ => .relationships []

/-- The answer when nothing is remembered. -/
def fresh (c : Collaborators) (e : Engine) : EngineRead → EngineAnswer :=
  let ix := e.search.index.contents
  let limit := e.search.settings.limit
  fun
  | query q scope => .found (q.freshAnswer c.provider c.resolver limit ix (scope.getD e.scope))
  | graph q scope =>
    .graph ((q.getD Engine.everything).freshGraph c.provider c.resolver limit ix (scope.getD e.scope))
  | symbols uri => .symbols (ix.fileSymbols uri)
  | relationships uri => .relationships (ix.fileRelationships uri)

end EngineRead

/-! ### Runs -/

/-- An engine, and what it was asked, since what derives from the index was last
dropped, with the index still empty afterwards. -/
structure Served where
  engine : Engine
  early : List Question := []

inductive EngineTurn where
  | call (call : EngineCall)
  | elapse (ms : Nat)

/-- The early questions after a call. -/
def EngineCall.early (before after : Engine) (answer : EngineAnswer) (early : List Question) :
    EngineCall → List Question
  | read r => if after.search.index.isEmpty then r.question before :: early else early
  | buildIndex _ =>
    match answer with
    | .indexed (.ok _) => []
    | _ => early
  | updateIndex _ | clearIndex | clearCache none => []
  | clearCache (some _) | optimizeCache => early

namespace Served

def turn (c : Collaborators) (s : Served) : EngineTurn → Served
  | .call call =>
    let (answer, engine) := (call.routine c).run s.engine
    { engine, early := call.early s.engine engine answer s.early }
  | .elapse ms => { s with engine := s.engine.elapse ms }

/-- A new engine after some turns. -/
def run (c : Collaborators) (config : AtlasConfig) (clock : Clock) (turns : List EngineTurn) : Served :=
  turns.foldl (turn c) { engine := .ofConfig config clock }

end Served

/-! ### Queries -/

section Reads

variable {c : Collaborators} {early early' : List Question} {e : Engine}

theorem Told.unrated {q : GraphQuery} {scope : QueryScope} {limit : Int} {asked : Prop} {ix : Index} {v : QueryResult}
    (hc : ix.Covered) (h : Told asked (q.freshAnswer c.provider c.resolver limit · scope) {} ix v.plain) :
    ∀ x ∈ v.relationships, x.IsUnrated := by
  rcases h with h | ⟨-, -, hv⟩
  · exact fun x hx => GraphQuery.unrated_freshAnswer hc h x hx
  · have hnil : v.relationships = [] := congrArg QueryResult.relationships hv
    simp [hnil]

/-- A value that was written can be read. -/
theorem forall_decode {β : Type} [Wire β] {P : β → Prop} {w : β} (hd : decode? (encode w) = some w) (h : P w) :
    ∀ v, decode? (encode w) = some v → P v := by
  intro v hv
  rw [hd] at hv
  exact Option.some.inj hv ▸ h

/-- What a query leaves behind, and what it is answered with. -/
structure QueryTold (c : Collaborators) (early early' : List Question) (e : Engine) (q : GraphQuery)
    (scope : QueryScope) (answer : Except AtlasError QueryResult) (e' : Engine) : Prop where
  sound : Sound c early' e'
  settings : e'.search.settings = e.search.settings
  follows : e.search.index.contents.Follows c.provider c.resolver scope e'.search.index.contents
  error : ∀ err, answer = .error err →
    q.freshAnswer c.provider c.resolver e.search.settings.limit e.search.index.contents scope = .error err
  ok : ∀ v, answer = .ok v →
    Told (.query q scope ∈ early) (q.freshAnswer c.provider c.resolver e.search.settings.limit · scope) {}
      e.search.index.contents v.plain ∧ (e'.search.index.isEmpty = true → v.plain = {})

variable {q : GraphQuery} {scope : QueryScope} {e' : Engine}

/-- A value that lasts may be told, if nothing but what it was kept for has changed. -/
theorem Lasts.queryTold {v : QueryResult} (hs : Sound c early' e')
    (hlasts : Lasts (.query q scope ∈ early)
      (q.freshAnswer c.provider c.resolver e.search.settings.limit · scope) {} e.search.index.contents v.plain)
    (hindex : e'.search.index.contents = e.search.index.contents) (hsettings : e'.search.settings = e.search.settings) :
    QueryTold c early early' e q scope (.ok v) e' := by
  refine ⟨hs, hsettings, .inl hindex, fun _ h => ?_, fun w h => ?_⟩
  · cases h
  · obtain rfl := Except.ok.inj h
    exact ⟨hlasts.told, fun h => (hlasts.nothing (hindex ▸ h)).2⟩

/-- An answer that was found anew and kept. -/
theorem answered_told {ix : Index} {a : QueryResult} (hs : Sound c early e) (hsub : early ⊆ early')
    (hearly : e'.search.index.isEmpty = true → .query q scope ∈ early') (hv : q.violations = [])
    (hfill : e.search.index.contents.filledFor c.provider c.resolver scope = .ok ix)
    (ha : a = q.answerFrom e.search.settings.limit scope ix)
    (hadds : Engine.Adds e e' ix [(q.cacheKey scope, a)] [(.queryResult, q.cacheKey scope, encode a)]) :
    QueryTold c early early' e q scope (.ok a) e' := by
  have hfollows : e.search.index.contents.Follows c.provider c.resolver scope ix := .inr hfill
  have hcovered : ix.Covered := GraphQuery.filledFor_covered hs.covered hfill
  have hplain : a.plain = a := by
    rw [ha]
    exact GraphQuery.plain_answer _ _ _
  have hfresh : q.freshAnswer c.provider c.resolver e.search.settings.limit e.search.index.contents scope = .ok a := by
    simp [GraphQuery.freshAnswer, hv, hfill, Except.map, ha]
  have htold : Told (.query q scope ∈ early) (q.freshAnswer c.provider c.resolver e.search.settings.limit · scope) {}
      e.search.index.contents a.plain := .inl (hfresh.trans (congrArg Except.ok hplain.symm))
  have hnothing : ix.isEmpty = true → a.plain = {} := fun h =>
    hplain.trans (ha.trans (GraphQuery.answerFrom_of_isEmpty hcovered h _ _ _))
  have hlasts : LastingResult c e.search.settings.limit early' ix (q.cacheKey scope) a := by
    intro q' s' hkey
    obtain ⟨rfl, rfl⟩ := GraphQuery.eq_of_cacheKey_eq hkey
    refine htold.lasts hfollows (GraphQuery.freshAnswer_of_filledFor hfollows.filledFor) (fun h => hsub h) ?_
    exact fun h => ⟨hearly (hadds.isEmpty.trans h), hnothing h⟩
  have hread : decode? (encode a) = some a := by
    have hfinite : a.executionTimeMs.isFinite = true := by
      rw [← hplain]
      exact finite_zero
    exact decode?_encode_queryResult (htold.unrated hs.covered) hfinite
  have hmoves : Moves early early' e.search.index.contents ix := by
    refine ⟨hsub, hs.covered, hcovered, ?_⟩
    cases h : e.search.index.contents.isEmpty with
    | false => exact .inl (hfollows.eq h)
    | true => exact .inr rfl
  refine ⟨hs.adds hadds hmoves (fun p hp => ?_) fun p hp => ?_, hadds.settings, hadds.index ▸ hfollows,
    fun _ h => ?_, fun v h => ?_⟩
  · rw [List.mem_singleton.mp hp]
    exact hlasts
  · rw [List.mem_singleton.mp hp]
    exact forall_decode hread hlasts
  · cases h
  · obtain rfl := Except.ok.inj h
    exact ⟨htold, fun h => hnothing (hadds.isEmpty ▸ h)⟩

/-- A query keeps what is kept fit to be told, and is told what may be told. -/
theorem queryOutcome_told {answer : Except AtlasError QueryResult} (hs : Sound c early e) (hsub : early ⊆ early')
    (hearly : e'.search.index.isEmpty = true → .query q scope ∈ early')
    (ho : Engine.QueryOutcome c q scope e answer e') : QueryTold c early early' e q scope answer e' := by
  cases ho with
  | cached held decoded keeps =>
    have hlasts := hs.values _ _ _ held _ decoded q scope rfl
    exact Lasts.queryTold (hs.keeps keeps hsub) hlasts keeps.index keeps.settings
  | @remembered found _ mem adds =>
    have hkept := hs.results _ mem
    have hlasts := hkept q scope rfl
    have hunrated : ∀ x ∈ (Engine.recalled found).relationships, x.IsUnrated := hlasts.told.unrated hs.covered
    have hread := decode?_encode_queryResult hunrated finite_zero
    have hmoves : Moves early early' e.search.index.contents e.search.index.contents :=
      ⟨hsub, hs.covered, hs.covered, .inl rfl⟩
    have hsound : Sound c early' e' := hs.stores adds hsub (forall_decode hread (hmoves.result hkept))
    exact Lasts.queryTold hsound hlasts adds.index adds.settings
  | failed fresh keeps =>
    refine ⟨hs.keeps keeps hsub, keeps.settings, .inl keeps.index, fun _ h => ?_, fun _ h => ?_⟩
    · rw [← Except.error.inj h]
      exact fresh
    · cases h
  | answered valid filled answer adds => exact answered_told hs hsub hearly valid filled answer adds

/-! ### Graph data and files -/

/-- A graph made of what a query was told is what the query is for. -/
theorem Told.graph {q : GraphQuery} {scope : QueryScope} {limit : Int} {asked : Prop} {ix ix' : Index} {v : QueryResult}
    (h : Told asked (q.freshAnswer c.provider c.resolver limit · scope) {} ix v.plain)
    (hfollows : ix.Follows c.provider c.resolver scope ix') (hnothing : ix'.isEmpty = true → v.plain = {}) :
    Told asked (q.freshGraph c.provider c.resolver limit · scope) {} ix
      (GraphData.ofParts v.symbols (ix'.relationshipsInScope scope ++ v.relationships)) := by
  have hnil : v.plain = {} → ∀ relationships, GraphData.ofParts v.symbols relationships = {} := by
    intro hv relationships
    have hsymbols : v.symbols = [] := congrArg QueryResult.symbols hv
    rw [hsymbols, GraphData.ofParts_nil]
  rcases h with h | ⟨hasked, hfull, hv⟩
  · obtain ⟨filled, hfill, -⟩ := GraphQuery.freshAnswer_eq_ok h
    have hgraph : q.freshGraph c.provider c.resolver limit ix scope =
        .ok (GraphData.ofParts v.symbols (filled.relationshipsInScope scope ++ v.relationships)) := by
      change q.freshAnswer c.provider c.resolver limit ix scope = .ok v.plain at h
      rw [GraphQuery.freshGraph, h, hfill]
      rfl
    left
    refine hgraph.trans (congrArg Except.ok ?_)
    cases hix' : ix'.isEmpty with
    | true => rw [hnil (hnothing hix'), hnil (hnothing hix')]
    | false =>
      have hfill' := hfollows.filledFor
      rw [Index.filledFor_of_not_isEmpty hix', hfill] at hfill'
      rw [Except.ok.inj hfill']
  · exact .inr ⟨hasked, hfull, hnil hv _⟩

theorem graphOutcome_told {answer : Except AtlasError GraphData} (hs : Sound c early e) (hsub : early ⊆ early')
    (hearly : e'.search.index.isEmpty = true → .query q scope ∈ early')
    (ho : Engine.GraphOutcome c q scope e answer e') :
    let fresh := (q.freshGraph c.provider c.resolver e.search.settings.limit · scope)
    Sound c early' e' ∧
      ((∃ err, answer = .error err ∧ fresh e.search.index.contents = .error err) ∨
      ∃ data, answer = .ok data ∧ Told (.query q scope ∈ early) fresh {} e.search.index.contents data) := by
  cases ho with
  | cached held decoded keeps =>
    have hlasts := hs.values _ _ _ held _ decoded q scope rfl
    exact ⟨hs.keeps keeps hsub, .inr ⟨_, rfl, hlasts.told⟩⟩
  | failed asked =>
    have htold := queryOutcome_told hs hsub hearly asked
    refine ⟨htold.sound, .inl ⟨_, rfl, ?_⟩⟩
    dsimp only
    rw [GraphQuery.freshGraph, htold.error _ rfl]
    rfl
  | @made result data e₁ _ asked graph adds =>
    have hearly₁ : e₁.search.index.isEmpty = true → .query q scope ∈ early' := fun h => hearly (adds.isEmpty.trans h)
    have htold := queryOutcome_told hs hsub hearly₁ asked
    obtain ⟨hresult, hnothing⟩ := htold.ok result rfl
    have hcovered := htold.sound.covered
    have hgraph := hresult.graph htold.follows hnothing
    rw [← graph] at hgraph
    have hread : decode? (encode data) = some data := by
      rw [graph]
      refine GraphData.decode?_encode_ofParts result.symbols fun x hx => ?_
      exact (List.mem_append.mp hx).elim (hcovered.unrated_inScope scope x) (hresult.unrated hs.covered x)
    have hlasts : LastingGraph c e₁.search.settings.limit early' e₁.search.index.contents (q.cacheKey scope) data := by
      intro q' s' hkey
      obtain ⟨rfl, rfl⟩ := GraphQuery.eq_of_cacheKey_eq hkey
      rw [htold.settings]
      refine hgraph.lasts htold.follows (GraphQuery.freshGraph_of_filledFor htold.follows.filledFor) (fun h => hsub h) ?_
      intro h
      have hsymbols : result.symbols = [] := congrArg QueryResult.symbols (hnothing h)
      rw [graph, hsymbols, GraphData.ofParts_nil]
      exact ⟨hearly₁ h, rfl⟩
    have hsound : Sound c early' e' := htold.sound.stores adds (fun _ h => h) (forall_decode hread hlasts)
    exact ⟨hsound, .inr ⟨data, rfl, hgraph⟩⟩

/-- What is read of one file. -/
theorem cachedRead_told {β : Type} [Wire β] {place : CacheStore} {key : String} {read : Index → β}
    {dependencies : β → List String} (question : Question) (nothing : β) (hs : Sound c early e) (hsub : early ⊆ early')
    (hcontents : ∀ ix : Index, read ix = read ix.contents)
    (hvalue : ∀ limit early ix data, LastingValue c limit early ix key data place ↔
      ∀ v, decode? data = some v → Lasts (question ∈ early) (fun ix => .ok (read ix)) nothing ix v)
    (hread : ∀ ix : Index, ix.Covered → decode? (encode (read ix)) = some (read ix))
    (hnothing : ∀ ix : Index, ix.Covered → ix.isEmpty = true → read ix = nothing) :
    let r := (Engine.cachedRead place key read dependencies).run e
    (r.2.search.index.isEmpty = true → question ∈ early') →
    Sound c early' r.2 ∧ Told (question ∈ early) (fun ix => .ok (read ix)) nothing e.search.index.contents r.1 := by
  intro r hearly
  obtain ⟨data, found, hheld, hdecode, hr, hkeeps⟩ | ⟨hr, hadds⟩ :=
    Engine.cachedRead_cases place key hcontents dependencies e
  · have hlasts := (hvalue _ _ _ _).mp (hs.values _ _ _ hheld) found hdecode
    exact ⟨hs.keeps hkeeps hsub, by rw [hr]; exact hlasts.told⟩
  · have hempty : r.2.search.index.isEmpty = e.search.index.isEmpty := hadds.isEmpty
    have hlasts : Lasts (question ∈ early') (fun ix => .ok (read ix)) nothing e.search.index.contents
        (read e.search.index.contents) :=
      ⟨.inl rfl, fun h => ⟨hearly (hempty.trans h), hnothing _ hs.covered h⟩⟩
    have hkept := (hvalue e.search.settings.limit _ _ _).mpr (forall_decode (hread _ hs.covered) hlasts)
    exact ⟨hs.stores hadds hsub hkept, .inl (by rw [hr])⟩

/-! ### Turns -/

theorem subset_early_read (e after : Engine) (answer : EngineAnswer) (early : List Question) (r : EngineRead) :
    early ⊆ EngineCall.early e after answer early (.read r) := by
  intro question h
  show question ∈ if after.search.index.isEmpty then _ else early
  split
  · exact List.mem_cons_of_mem _ h
  · exact h

theorem question_mem_early (e : Engine) {after : Engine} (answer : EngineAnswer) (early : List Question) (r : EngineRead)
    (h : after.search.index.isEmpty = true) : r.question e ∈ EngineCall.early e after answer early (.read r) := by
  show r.question e ∈ if after.search.index.isEmpty then _ else early
  rw [if_pos h]
  exact List.mem_cons_self

/-- A read is answered as if nothing were remembered, or with nothing if it came too early. -/
theorem read_told (hs : Sound c early e) (r : EngineRead) :
    let a := (r.routine c).run e
    Sound c (EngineCall.early e a.2 a.1 early (.read r)) a.2 ∧
      (a.1.plain = r.fresh c e ∨
      (r.question e ∈ early ∧ e.search.index.isEmpty = false ∧ a.1.plain = r.nothing)) := by
  intro a
  have hsub := subset_early_read e a.2 a.1 early r
  have hearly : a.2.search.index.isEmpty = true → _ := question_mem_early e a.1 early r
  generalize EngineCall.early e a.2 a.1 early (.read r) = early' at hsub hearly ⊢
  cases r with
  | query q scope =>
    have ha : a = _ := Routine.run_map (Engine.executeQuery c q scope) EngineAnswer.found e
    rw [ha] at hearly ⊢
    have htold := queryOutcome_told hs hsub hearly (Engine.executeQuery_outcome c q scope e)
    refine ⟨htold.sound, ?_⟩
    cases hanswer : ((Engine.executeQuery c q scope).run e).1 with
    | error err => exact .inl (congrArg EngineAnswer.found (htold.error err hanswer).symm)
    | ok v =>
      refine (htold.ok v hanswer).1.imp (fun h => congrArg EngineAnswer.found h.symm) ?_
      exact fun h => ⟨h.1, h.2.1, congrArg (EngineAnswer.found <| .ok ·) h.2.2⟩
  | graph q scope =>
    have ha : a = _ := Routine.run_map (Engine.getGraphData c q scope) EngineAnswer.graph e
    rw [ha] at hearly ⊢
    have hticket : Sound c early (Engine.takeTicket.run e).2 := ⟨hs.covered, hs.results, hs.values⟩
    obtain ⟨hsound, htold⟩ := graphOutcome_told hticket hsub hearly (Engine.getGraphData_outcome c q scope e)
    refine ⟨hsound, ?_⟩
    obtain ⟨err, hanswer, hfresh⟩ | ⟨data, hanswer, htold⟩ := htold
    · left
      exact congrArg EngineAnswer.graph (hanswer.trans hfresh.symm)
    · refine htold.imp (fun h => congrArg EngineAnswer.graph (hanswer.trans h.symm)) ?_
      exact fun h => ⟨h.1, h.2.1, congrArg EngineAnswer.graph (hanswer.trans (congrArg Except.ok h.2.2))⟩
  | symbols uri =>
    have ha : a = _ := Routine.run_map (Engine.fileSymbols uri) EngineAnswer.symbols e
    rw [ha] at hearly ⊢
    obtain ⟨hsound, htold⟩ := cachedRead_told (.symbols uri) [] hs hsub (fun _ => rfl)
      (fun _ _ _ _ => Iff.rfl) (fun ix _ => decode?_encode _) (fun ix hc h => hc.fileSymbols_eq_nil h uri) hearly
    refine ⟨hsound, htold.imp (fun h => congrArg EngineAnswer.symbols (Except.ok.inj h).symm) ?_⟩
    exact fun h => ⟨h.1, h.2.1, congrArg EngineAnswer.symbols h.2.2⟩
  | relationships uri =>
    have ha : a = _ := Routine.run_map (Engine.fileRelationships uri) EngineAnswer.relationships e
    rw [ha] at hearly ⊢
    obtain ⟨hsound, htold⟩ := cachedRead_told (.relationships uri) [] hs hsub (fun _ => rfl)
      (fun _ _ _ _ => Iff.rfl)
      (fun ix hc => Json.decode?_encode_list fun x hx => decode?_encode_relationship (hc.unrated_ofFile uri x hx))
      (fun ix hc h => hc.fileRelationships_eq_nil h uri) hearly
    refine ⟨hsound, htold.imp (fun h => congrArg EngineAnswer.relationships (Except.ok.inj h).symm) ?_⟩
    exact fun h => ⟨h.1, h.2.1, congrArg EngineAnswer.relationships h.2.2⟩

theorem sound_clear {answer : EngineAnswer} (hs : Sound c early e) (place : Option CacheStore) :
    let e' := ((Engine.clearCache place).run e).2
    Sound c (EngineCall.early e e' answer early (.clearCache place)) e' := by
  cases place with
  | none => exact sound_drops hs.covered (Engine.clearCache_none_run e) []
  | some place => exact hs.keeps (Engine.clearCache_run (some place) e) fun _ h => h

theorem sound_build (hs : Sound c early e) (scope : Option QueryScope) :
    let r := (Engine.buildIndex c scope).run e
    Sound c (EngineCall.early e r.2 (.indexed r.1) early (.buildIndex scope)) r.2 := by
  intro r
  obtain ⟨err, hr, hkeeps⟩ | ⟨summary, made, hr, hc, hdrops⟩ := Engine.buildIndex_cases c scope e
  · have hr : r.1 = .error err := hr
    rw [hr]
    exact hs.keeps hkeeps fun _ h => h
  · have hr : r.1 = .ok summary := hr
    rw [hr]
    exact sound_drops hc hdrops []

theorem sound_call {s : Served} {call : EngineCall} {answer : EngineAnswer} {e' : Engine}
    (hrun : (call.routine c).run s.engine = (answer, e')) (h : Sound c (call.early s.engine e' answer s.early) e') :
    Sound c (s.turn c (.call call)).early (s.turn c (.call call)).engine := by
  rw [Served.turn, hrun]
  exact h

/-- Turns keep everything that is kept fit to be told. -/
theorem sound_turn {s : Served} (hs : Sound c s.early s.engine) (turn : EngineTurn) :
    Sound c (s.turn c turn).early (s.turn c turn).engine := by
  cases turn with
  | elapse ms => exact hs.keeps (Engine.elapse_keeps ms s.engine) fun _ h => h
  | call call =>
    cases call with
    | read r => exact sound_call rfl (read_told hs r).1
    | buildIndex scope => exact sound_call (Routine.run_map (Engine.buildIndex c scope) EngineAnswer.indexed _) (sound_build hs scope)
    | updateIndex uris =>
      obtain ⟨ix, hc, hdrops⟩ := Engine.updateIndex_run c uris hs.covered
      exact sound_call (Routine.run_map (Engine.updateIndex c uris) (EngineAnswer.indexed <| .ok ·) _) (sound_drops hc hdrops [])
    | clearIndex =>
      have hdrops := Engine.clearIndex_run s.engine
      exact sound_call (Routine.run_map Engine.clearIndex (fun _ => EngineAnswer.done) _) (sound_drops Index.covered_empty hdrops [])
    | clearCache place => exact sound_call (Routine.run_map (Engine.clearCache place) (fun _ => EngineAnswer.done) _) (sound_clear hs place)
    | optimizeCache =>
      have hkeeps := Engine.optimizeCache_run s.engine
      exact sound_call (Routine.run_map Engine.optimizeCache EngineAnswer.removed _) (hs.keeps hkeeps fun _ h => h)

theorem run_sound (c : Collaborators) (config : AtlasConfig) (clock : Clock) (turns : List EngineTurn) :
    Sound c (Served.run c config clock turns).early (Served.run c config clock turns).engine := by
  unfold Served.run
  induction turns using List.reverseRecOn with
  | nil =>
    exact ⟨Index.covered_empty, fun _ h => (List.not_mem_nil h).elim, fun _ _ _ ⟨_, h, _⟩ => (List.not_mem_nil h).elim⟩
  | append_singleton turns turn ih =>
    rw [List.foldl_concat]
    exact sound_turn ih turn

theorem sound_cold (hs : Sound c early e) : Sound c [] e.cold :=
  ⟨hs.covered, fun _ h => (List.not_mem_nil h).elim, fun _ _ _ ⟨_, h, _⟩ => (List.not_mem_nil h).elim⟩

theorem read_cold (hs : Sound c early e) (r : EngineRead) : ((r.routine c).run e.cold).1.plain = r.fresh c e := by
  have hfresh : r.fresh c e.cold = r.fresh c e := by cases r <;> rfl
  rw [← hfresh]
  exact (read_told (sound_cold hs) r).2.resolve_right fun h => (List.not_mem_nil h.1).elim

/-- Reads of an engine are answered as if its caches were empty, with one exception: what
was asked while the index was empty, before a query filled it, is answered with nothing. -/
theorem read_ne_cold_iff (c : Collaborators) (config : AtlasConfig) (clock : Clock) (turns : List EngineTurn)
    (r : EngineRead) :
    let s := Served.run c config clock turns
    let answer := ((r.routine c).run s.engine).1.plain
    let cold := ((r.routine c).run s.engine.cold).1.plain
    answer ≠ cold ↔
      r.question s.engine ∈ s.early ∧ s.engine.search.index.isEmpty = false ∧ answer = r.nothing ∧
        cold ≠ r.nothing := by
  intro s answer cold
  have hs : Sound c s.early s.engine := run_sound c config clock turns
  have hcold : cold = r.fresh c s.engine := read_cold hs r
  constructor
  · intro hne
    rcases (read_told hs r).2 with h | ⟨hearly, hfull, hnothing⟩
    · exact absurd (h.trans hcold.symm) hne
    · exact ⟨hearly, hfull, hnothing, fun h => hne (hnothing.trans h.symm)⟩
  · rintro ⟨-, -, hnothing, hcold⟩ h
    exact hcold (h.symm.trans hnothing)

end Reads

/-! ### A file that was asked for too early -/

def EngineAnswer.symbols? : EngineAnswer → Option (List Symbol)
  | .symbols listed => some listed
  | _ => none

/-- One file with one symbol. -/
def smallWorkspace : MemoryProvider :=
  ({} : MemoryProvider).addFile "file:///a.rs" [{ name := "f", kind := .name "function", range := default }] ""

/-- A query after a file was asked for. -/
def tooEarly : List EngineTurn :=
  [.call <| .read <| .symbols "file:///a.rs", .call <| .read <| .query Engine.everything none]

/-- The query has filled the index, but the file still has no symbols. -/
theorem early_read_ne_cold :
    let c : Collaborators := ⟨smallWorkspace.provider, smallWorkspace.resolver, .ofSeed 0⟩
    let r : EngineRead := .symbols "file:///a.rs"
    let s := Served.run c {} {} tooEarly
    let answer := ((r.routine c).run s.engine).1.plain
    let cold := ((r.routine c).run s.engine.cold).1.plain
    answer.symbols? = some [] ∧ cold.symbols?.map (·.map Symbol.name) = some ["f"] ∧ answer ≠ cold := by
  intro c r s answer cold
  have hanswer : answer.symbols? = some [] := by decide +kernel
  have hcold : cold.symbols?.map (·.map Symbol.name) = some ["f"] := by decide +kernel
  refine ⟨hanswer, hcold, fun h => ?_⟩
  rw [← h, hanswer] at hcold
  cases hcold

end CodeAtlas
