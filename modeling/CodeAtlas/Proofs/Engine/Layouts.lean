import CodeAtlas.Proofs.Engine.Calls
import CodeAtlas.Proofs.Layout.Recall

/-! When the cache of layouts shows.

What is held for layouts was computed by earlier requests with the same key
(`Filed`). The key tells a request as long as its numbers are finite, and a layout of
such a request is read back as it was computed. So the cache shows only in what is drawn:
a request without a seed is answered with what was drawn for an earlier one. An option
that is not finite is written like a missing one, and a request that should fail for it
is answered with the layout of a request without it; a strength that is not finite is
written as null, and a layout with it is read back without it. -/
namespace CodeAtlas
open Json

/-! ### Requests -/

structure LayoutRequest where
  /-- Drawn for the request, if it has no seed. -/
  drawn : Random.Generator
  data : GraphData
  algorithm : Option String := none
  update : LayoutOptionsUpdate := {}

namespace LayoutRequest

def routine (q : LayoutRequest) : Routine Engine (Except AtlasError LayoutResult) :=
  Engine.computeLayout q.drawn q.data q.algorithm q.update

/-- The algorithm that is asked for, where one is usual. -/
def algorithmOr (q : LayoutRequest) (usual : String) : String := q.algorithm.getD usual

def key (q : LayoutRequest) (e : Engine) : String :=
  Engine.layoutKey q.data (q.algorithmOr e.defaultAlgorithm) q.update

/-- What is hashed of the request. -/
def texts (q : LayoutRequest) : List String := layoutTexts q.data q.update

/-- What is looked up for the request. -/
def lookup (q : LayoutRequest) (e : Engine) : Routine Engine (Option LayoutResult) :=
  Engine.onCache (Cache.getAs .layout (q.key e))

/-- What the layout engine makes of the request. -/
def fresh (q : LayoutRequest) (e : Engine) : Except AtlasError LayoutResult :=
  e.layout.compute? q.drawn q.data (q.algorithmOr e.defaultAlgorithm) q.update

/-- The request finds no layout in the cache, and this one is computed for it. -/
structure Computes (q : LayoutRequest) (e : Engine) (r : LayoutResult) : Prop where
  missed : ((q.lookup e).run e).1 = none
  computed : q.fresh e = .ok r

structure AllFinite (q : LayoutRequest) : Prop where
  data : q.data.AllFinite
  update : q.update.AllFinite

/-- The request with other numbers drawn for it. -/
def drawing (q : LayoutRequest) (drawn : Random.Generator) : LayoutRequest := { q with drawn }

/-- The request has a seed, or is for a strategy that draws nothing. -/
def IsSettled (q : LayoutRequest) (e : Engine) : Prop :=
  (q.update.apply e.layout.defaults).seed ≠ none ∨
    ∀ tag s, e.layout.resolve (q.algorithmOr e.defaultAlgorithm) = .ok (tag, s) → s.DrawsNothing

/-- The same graph, algorithm and update as another request. -/
structure AsksFor (p q : LayoutRequest) (usual : String) : Prop where
  data : p.data = q.data
  algorithm : p.algorithmOr usual = q.algorithmOr usual
  update : p.update = q.update

end LayoutRequest

namespace Engine

variable {e e' e'' : Engine} {q : LayoutRequest}

/-! ### One request -/

/-- Layouts are computed in the same way. -/
structure SameLayouts (e e' : Engine) : Prop where
  strategies : e'.layout.strategies = e.layout.strategies
  defaults : e'.layout.defaults = e.layout.defaults
  usual : e'.defaultAlgorithm = e.defaultAlgorithm

theorem SameLayouts.refl (e : Engine) : SameLayouts e e := ⟨rfl, rfl, rfl⟩

theorem SameLayouts.trans (h : SameLayouts e e') (h' : SameLayouts e' e'') : SameLayouts e e'' :=
  ⟨h'.strategies.trans h.strategies, h'.defaults.trans h.defaults, h'.usual.trans h.usual⟩

theorem SameLayouts.key (h : SameLayouts e e') : q.key e' = q.key e := by
  rw [LayoutRequest.key, LayoutRequest.key, h.usual]

theorem SameLayouts.fresh (h : SameLayouts e e') : q.fresh e' = q.fresh e := by
  rw [LayoutRequest.fresh, LayoutRequest.fresh, h.usual, LayoutEngine.compute?, LayoutEngine.compute?,
    LayoutEngine.resolve, LayoutEngine.resolve, h.strategies, h.defaults]

theorem sameLayouts_onCache {α : Type} (r : Routine Cache α) (e : Engine) : SameLayouts e ((onCache r).run e).2 :=
  Routine.run_does (Routine.does_within r.does_any (fun _ _ _ => ⟨rfl, rfl, rfl⟩) SameLayouts.refl) SameLayouts.refl
    SameLayouts.trans e

/-- How a request for a layout is answered: with what the cache holds, or as the layout
engine fails, or with what the layout engine computes, which is stored. -/
inductive LayoutAnswer (q : LayoutRequest) (e : Engine) : Except AtlasError LayoutResult → Engine → Prop where
  | cached {data : Json} {found : LayoutResult} {e' : Engine} (held : e.cache.Holds .layout (q.key e) data)
      (decoded : decode? data = some found) (keeps : Keeps e e') (same : SameLayouts e e') :
      LayoutAnswer q e (.ok found) e'
  | failed {cause : AtlasError} {e' : Engine} (fresh : q.fresh e = .error cause) (keeps : Keeps e e')
      (same : SameLayouts e e') : LayoutAnswer q e (.error cause) e'
  | computed {r : LayoutResult} {e' : Engine} (fresh : q.Computes e r)
      (adds : Adds e e' e.search.index.contents [] [(.layout, q.key e, encode r)]) (same : SameLayouts e e') :
      LayoutAnswer q e (.ok r) e'

theorem LayoutAnswer.same {answer : Except AtlasError LayoutResult} (h : LayoutAnswer q e answer e') :
    SameLayouts e e' := by
  cases h with
  | cached _ _ _ same => exact same
  | failed _ _ same => exact same
  | computed _ _ same => exact same

/-- Compute a layout, and store it. -/
def drawLayout (q : LayoutRequest) (key : String) (algorithm : String) :
    Routine Engine (Except AtlasError LayoutResult) := do
  match ← onLayout (LayoutEngine.compute q.drawn q.data algorithm q.update) with
  | .error e => return .error e
  | .ok result =>
    record (Metrics.recordLayout result.elapsedMs)
    store .layout key result []
    return .ok result

/-- A layout is drawn as the layout engine computes it, and stored if it does. -/
theorem drawLayout_run (q : LayoutRequest) (key : String) (e : Engine) :
    let r := (drawLayout q key (q.algorithmOr e.defaultAlgorithm)).run e
    r.1 = q.fresh e ∧ SameLayouts e r.2 ∧ (∀ cause, q.fresh e = .error cause → Keeps e r.2) ∧
      ∀ made, q.fresh e = .ok made → Adds e r.2 e.search.index.contents [] [(.layout, key, encode made)] := by
  intro r
  have hr : r = (drawLayout q key (q.algorithmOr e.defaultAlgorithm)).run e := rfl
  let call : LayoutCall := .compute q.data (q.algorithmOr e.defaultAlgorithm) q.update
  have hrun : (onLayout (LayoutEngine.compute q.drawn q.data (q.algorithmOr e.defaultAlgorithm) q.update)).run e =
      ((call.run q.drawn e.layout).1, e.withLayout (call.run q.drawn e.layout).2) := rfl
  rw [drawLayout, Routine.run_bind, hrun] at hr
  cases h : q.fresh e with
  | error cause =>
    rw [LayoutCall.run_error (show call.answer e.layout q.drawn = _ from h)] at hr
    rw [hr]
    exact ⟨rfl, ⟨rfl, rfl, rfl⟩, fun _ _ => ⟨rfl, fun _ h => .inl h, fun _ _ _ h => .inl h, rfl, rfl⟩, nofun⟩
  | ok made =>
    rw [LayoutCall.run_ok (show call.answer e.layout q.drawn = _ from h)] at hr
    have hstore := store_run .layout key made []
      ((record (Metrics.recordLayout made.elapsedMs)).run (e.withLayout (call.announced made e.layout))).2
    rw [hr]
    refine ⟨rfl, ⟨rfl, rfl, rfl⟩, nofun, fun made' h => ?_⟩
    obtain rfl := Except.ok.inj h
    exact ⟨rfl, fun _ h => .inl h, fun place key data h => hstore.values place key data h, rfl, rfl⟩

theorem computeLayout_answer (q : LayoutRequest) (e : Engine) :
    let r := q.routine.run e
    LayoutAnswer q e r.1 r.2 := by
  intro r
  have hr : r = q.routine.run e := rfl
  rw [LayoutRequest.routine, computeLayout, Routine.run_bind, Routine.run_look, Routine.run_bind] at hr
  have hlookup : (onCache (Cache.getAs .layout
    (layoutKey q.data (q.algorithm.getD e.defaultAlgorithm) q.update))).run e = (q.lookup e).run e := rfl
  dsimp only at hr
  rw [hlookup] at hr
  obtain ⟨hkeeps, hfound⟩ := lookup_run (α := LayoutResult) .layout (q.key e) e
  have hsame : SameLayouts e ((q.lookup e).run e).2 := sameLayouts_onCache _ e
  have hmissed : ((q.lookup e).run e).1 = none → ∀ made, q.fresh e = .ok made → q.Computes e made :=
    fun missed _ computed => ⟨missed, computed⟩
  change Keeps e ((q.lookup e).run e).2 at hkeeps
  change ∀ v, ((q.lookup e).run e).1 = some v → _ at hfound
  generalize (q.lookup e).run e = l at hr hkeeps hfound hsame hmissed
  obtain ⟨found, e₁⟩ := l
  cases found with
  | some found =>
    obtain ⟨data, held, decoded⟩ := hfound found rfl
    rw [hr]
    exact .cached held decoded hkeeps hsame
  | none =>
    have hr : r = (drawLayout q (q.key e) (q.algorithmOr e.defaultAlgorithm)).run e₁ := hr
    have hdraw := drawLayout_run q (q.key e) e₁
    dsimp only at hkeeps hsame hmissed
    rw [hsame.usual, hsame.fresh, ← hr] at hdraw
    obtain ⟨hanswer, hdrawn, hfailed, hmade⟩ := hdraw
    rw [hanswer]
    cases hfresh : q.fresh e with
    | error cause => exact .failed hfresh (hkeeps.trans (hfailed cause hfresh)) (hsame.trans hdrawn)
    | ok made =>
      have hadds := hkeeps.after (hmade made hfresh)
      rw [hkeeps.index] at hadds
      exact .computed (hmissed rfl made hfresh) hadds (hsame.trans hdrawn)

theorem fresh_of_error {cause : AtlasError} (h : (q.routine.run e).1 = .error cause) : q.fresh e = .error cause := by
  have hanswer := computeLayout_answer q e
  dsimp only at hanswer
  rw [h] at hanswer
  generalize (q.routine.run e).2 = e' at hanswer
  cases hanswer with
  | failed fresh keeps same => exact fresh

/-! ### A layout alone -/

/-- With nothing in the store of layouts, a request is answered by the layout engine. -/
theorem run_cleared (q : LayoutRequest) (e : Engine) :
    (q.routine.run ((clearCache (some .layout)).run e).2).1 = q.fresh e := by
  have hsame : SameLayouts e ((clearCache (some .layout)).run e).2 := ⟨rfl, rfl, rfl⟩
  have hempty : ∀ key data, ¬ ((clearCache (some .layout)).run e).2.cache.Holds .layout key data :=
    fun _ _ => Cache.not_holds_clearStore
  generalize ((clearCache (some .layout)).run e).2 = e' at hsame hempty
  have hanswer := computeLayout_answer q e'
  rw [← hsame.fresh]
  generalize q.routine.run e' = r at hanswer
  obtain ⟨answer, after⟩ := r
  cases hanswer with
  | cached held decoded keeps same => exact absurd held (hempty _ _)
  | failed fresh keeps same => exact fresh.symm
  | computed fresh adds same => exact fresh.computed.symm

/-! ### Many requests -/

/-- Time may pass between requests. -/
inductive LayoutTurn where
  | call (q : LayoutRequest)
  | elapse (ms : Nat)

def LayoutTurn.requests : LayoutTurn → List LayoutRequest
  | call q => [q]
  | elapse _ => []

def turn (e : Engine) : LayoutTurn → Engine
  | .call q => (q.routine.run e).2
  | .elapse ms => e.elapse ms

/-- The engine after some turns. -/
def afterTurns (e : Engine) (turns : List LayoutTurn) : Engine := turns.foldl turn e

/-- In one of the turns the request finds no layout in the cache, and this one is computed for it. -/
def ComputesIn (e : Engine) (turns : List LayoutTurn) (q : LayoutRequest) (r : LayoutResult) : Prop :=
  ∃ before after, turns = before ++ .call q :: after ∧ q.Computes (e.afterTurns before) r

variable {turns : List LayoutTurn} {r : LayoutResult}

theorem ComputesIn.append (h : ComputesIn e turns q r) (t : LayoutTurn) : ComputesIn e (turns ++ [t]) q r := by
  obtain ⟨before, after, rfl, computes⟩ := h
  exact ⟨before, after ++ [t], by simp, computes⟩

theorem ComputesIn.mem (h : ComputesIn e turns q r) : q ∈ turns.flatMap LayoutTurn.requests := by
  obtain ⟨before, after, rfl, -⟩ := h
  simp [LayoutTurn.requests]

theorem computesIn_last (h : q.Computes (e.afterTurns turns) r) : ComputesIn e (turns ++ [.call q]) q r :=
  ⟨turns, [], rfl, h⟩

theorem sameLayouts_tick (e : Engine) (due : Nat × Due) : SameLayouts e (e.tick due) := by
  obtain ⟨moment, due⟩ := due
  cases due <;> exact ⟨rfl, rfl, rfl⟩

theorem sameLayouts_elapse (ms : Nat) (e : Engine) : SameLayouts e (e.elapse ms) := by
  have ticks (dues : List (Nat × Due)) (e : Engine) : SameLayouts e (dues.foldl tick e) := by
    induction dues generalizing e with
    | nil => exact .refl e
    | cons due rest ih => exact (sameLayouts_tick e due).trans (ih _)
  exact (ticks (e.dueUntil (e.cache.clock.now + ms)) e).trans ⟨rfl, rfl, rfl⟩

theorem sameLayouts_turn (e : Engine) (t : LayoutTurn) : SameLayouts e (e.turn t) := by
  cases t with
  | call q => exact (computeLayout_answer q e).same
  | elapse ms => exact sameLayouts_elapse ms e

theorem sameLayouts_afterTurns (e : Engine) (turns : List LayoutTurn) : SameLayouts e (e.afterTurns turns) := by
  induction turns generalizing e with
  | nil => exact .refl e
  | cons t rest ih => exact (sameLayouts_turn e t).trans (ih (e.turn t))

variable {start : Engine}

theorem ComputesIn.fresh (h : ComputesIn start turns q r) : q.fresh start = .ok r := by
  obtain ⟨before, after, rfl, computes⟩ := h
  rw [← (sameLayouts_afterTurns start before).fresh, computes.computed]

/-- All layouts that are held were computed for requests with these keys. -/
def Filed (start : Engine) (turns : List LayoutTurn) (e : Engine) : Prop :=
  ∀ key data, e.cache.Holds .layout key data →
    ∃ q r, ComputesIn start turns q r ∧ q.key start = key ∧ data = encode r

theorem Filed.keeps (h : Filed start turns e) (t : LayoutTurn) (hkeeps : Keeps e e') : Filed start (turns ++ [t]) e' := by
  intro key data held
  have hheld := (hkeeps.values _ _ _ held).resolve_right List.not_mem_nil
  obtain ⟨q, r, computes, hkey, hdata⟩ := h key data hheld
  exact ⟨q, r, computes.append t, hkey, hdata⟩

theorem Filed.turn (h : Filed start turns (start.afterTurns turns)) (t : LayoutTurn) :
    Filed start (turns ++ [t]) ((start.afterTurns turns).turn t) := by
  cases t with
  | elapse ms => exact h.keeps _ (elapse_keeps ms _)
  | call q =>
    have hanswer := computeLayout_answer q (start.afterTurns turns)
    show Filed start (turns ++ [.call q]) (q.routine.run (start.afterTurns turns)).2
    generalize q.routine.run (start.afterTurns turns) = r at hanswer
    obtain ⟨answer, e'⟩ := r
    cases hanswer with
    | cached held decoded hkeeps hsame => exact h.keeps _ hkeeps
    | failed fresh hkeeps hsame => exact h.keeps _ hkeeps
    | @computed r _ fresh adds hsame =>
      intro key data held
      obtain hheld | hnew := adds.values _ _ _ held
      · obtain ⟨p, r, computes, hkey, hdata⟩ := h key data hheld
        exact ⟨p, r, computes.append _, hkey, hdata⟩
      · obtain ⟨rfl, rfl⟩ : key = q.key (start.afterTurns turns) ∧ data = encode r := by simpa using hnew
        exact ⟨q, r, computesIn_last fresh, (sameLayouts_afterTurns start turns).key.symm, rfl⟩

theorem filed_afterTurns (empty : ∀ key data, ¬ start.cache.Holds .layout key data) (turns : List LayoutTurn) :
    Filed start turns (start.afterTurns turns) := by
  induction turns using List.reverseRecOn with
  | nil => exact fun key data held => absurd held (empty key data)
  | append_singleton turns t ih =>
    rw [afterTurns, List.foldl_append]
    exact ih.turn t

/-! ### Transparency -/

/-- A held layout was computed for a request that cannot be told apart by what is hashed. -/
theorem Filed.source (h : Filed start turns (start.afterTurns turns)) {data : Json}
    (apart : Digest.TellsApart ((turns.flatMap LayoutTurn.requests ++ [q]).map LayoutRequest.texts))
    (held : (start.afterTurns turns).cache.Holds .layout (q.key (start.afterTurns turns)) data) :
    ∃ p made, ComputesIn start turns p made ∧ data = encode made ∧ p.texts = q.texts ∧
      p.algorithmOr start.defaultAlgorithm = q.algorithmOr start.defaultAlgorithm := by
  obtain ⟨p, made, computes, hkey, rfl⟩ := h _ _ held
  obtain ⟨halgorithm, hdigest⟩ := layoutKey_cancel (hkey.trans (sameLayouts_afterTurns start turns).key)
  have hp : p.texts ∈ (turns.flatMap LayoutTurn.requests ++ [q]).map LayoutRequest.texts :=
    List.mem_map_of_mem (List.mem_append_left _ computes.mem)
  have hq : q.texts ∈ (turns.flatMap LayoutTurn.requests ++ [q]).map LayoutRequest.texts :=
    List.mem_map_of_mem (by simp)
  exact ⟨p, made, computes, rfl, apart _ hp _ hq hdigest, halgorithm⟩

/-- So is a layout that is returned, if it is not computed now. -/
theorem Filed.recalled (h : Filed start turns (start.afterTurns turns))
    (apart : Digest.TellsApart ((turns.flatMap LayoutTurn.requests ++ [q]).map LayoutRequest.texts))
    (hr : (q.routine.run (start.afterTurns turns)).1 = .ok r) :
    ∃ p made, ComputesIn start (turns ++ [.call q]) p made ∧ p.texts = q.texts ∧
      p.algorithmOr start.defaultAlgorithm = q.algorithmOr start.defaultAlgorithm ∧
      (made = r ∨ decode? (encode made) = some r) := by
  have hanswer := computeLayout_answer q (start.afterTurns turns)
  dsimp only at hanswer
  rw [hr] at hanswer
  generalize (q.routine.run (start.afterTurns turns)).2 = e' at hanswer
  cases hanswer with
  | computed fresh adds same => exact ⟨q, r, computesIn_last fresh, rfl, rfl, .inl rfl⟩
  | cached held decoded keeps same =>
    obtain ⟨p, made, computes, rfl, texts, algorithm⟩ := h.source apart held
    exact ⟨p, made, computes.append _, texts, algorithm, .inr decoded⟩

/-- A request with finite numbers is told apart by what is hashed from those that have been computed. -/
theorem ComputesIn.asksFor {p : LayoutRequest} (h : ComputesIn start turns p r) (finite : q.AllFinite)
    (texts : p.texts = q.texts)
    (algorithm : p.algorithmOr start.defaultAlgorithm = q.algorithmOr start.defaultAlgorithm) :
    p.AsksFor q start.defaultAlgorithm := by
  obtain ⟨data, update⟩ :=
    layoutTexts_cancel finite.data finite.update (allFinite_of_compute? h.fresh) texts.symm
  exact ⟨data.symm, algorithm, update.symm⟩

/-- What is drawn for a request is all that can tell it from another one of the same layout. -/
theorem asksFor_fresh {p : LayoutRequest} (h : p.AsksFor q start.defaultAlgorithm) :
    p.fresh start = (q.drawing p.drawn).fresh start := by
  rw [LayoutRequest.fresh, h.data, h.algorithm, h.update]
  rfl

/-- A new engine, for which more strategies may have been registered. -/
def ofStrategies (config : AtlasConfig) (clock : Clock) (strategies : List (String × Strategy)) : Engine :=
  { ofConfig config clock with layout := (ofConfig config clock).layout.registerAll strategies }

theorem allStrategies_ofStrategies {holds : Strategy → Prop} (builtIn : ∀ a, holds (.ofAlgorithm a))
    {strategies : List (String × Strategy)} (h : ∀ s ∈ strategies, holds s.2) (config : AtlasConfig) (clock : Clock) :
    (ofStrategies config clock strategies).layout.AllStrategies holds :=
  (LayoutEngine.allStrategies_ofDefaults builtIn config.layout.options).registerAll h

/-- A settled request is answered by the layout engine in one way, whatever is drawn. -/
theorem fresh_drawing {config : AtlasConfig} {clock : Clock} {strategies : List (String × Strategy)}
    (keep : ∀ s ∈ strategies, s.2.KeepsToSeed) (settled : q.IsSettled (ofStrategies config clock strategies))
    (drawn : Random.Generator) :
    (q.drawing drawn).fresh (ofStrategies config clock strategies) = q.fresh (ofStrategies config clock strategies) :=
  LayoutEngine.compute?_settled
    (allStrategies_ofStrategies Strategy.keepsToSeed_ofAlgorithm keep config clock) settled q.drawn

theorem not_holds_ofStrategies (config : AtlasConfig) (clock : Clock) (strategies : List (String × Strategy))
    (key : String) (data : Json) : ¬ (ofStrategies config clock strategies).cache.Holds .layout key data := by
  rintro ⟨entry, mem, -⟩
  exact List.not_mem_nil mem

/-- A request that fails also fails with nothing in the store of layouts, and a layout that is
returned was computed for a request with the same algorithm and the same texts, this one or an
earlier one, and may have been read back. For a request whose numbers are finite, and with
strategies that only move nodes, this is all one could want: the layout was computed, as it is,
for a request of the same graph, algorithm and update, and with nothing in the store the
request is answered with it if the same is drawn. If in addition the request has a seed to which
strategies keep, or is for a strategy that draws nothing, it is answered as with nothing in the
store, layout or failure, whatever is drawn. -/
theorem layouts_are_recalled (config : AtlasConfig) (clock : Clock) (strategies : List (String × Strategy))
    (turns : List LayoutTurn) (q : LayoutRequest)
    (apart : Digest.TellsApart ((turns.flatMap LayoutTurn.requests ++ [q]).map LayoutRequest.texts)) :
    let start := ofStrategies config clock strategies
    let e := start.afterTurns turns
    let answer := (q.routine.run e).1
    let alone (drawn : Random.Generator) := ((q.drawing drawn).routine.run ((clearCache (some .layout)).run e).2).1
    let usual := start.defaultAlgorithm
    (∀ cause, answer = .error cause → alone q.drawn = .error cause) ∧
    (∀ r, answer = .ok r → ∃ p made, ComputesIn start (turns ++ [.call q]) p made ∧ p.texts = q.texts ∧
      p.algorithmOr usual = q.algorithmOr usual ∧ (made = r ∨ decode? (encode made) = some r)) ∧
    (q.AllFinite → (∀ s ∈ strategies, s.2.MovesOnly) →
      (∀ r, answer = .ok r →
        ∃ p, ComputesIn start (turns ++ [.call q]) p r ∧ p.AsksFor q usual ∧ alone p.drawn = .ok r) ∧
      ((∀ s ∈ strategies, s.2.KeepsToSeed) → q.IsSettled start → ∀ drawn, alone drawn = answer)) := by
  intro start e answer alone usual
  have hfiled := filed_afterTurns (not_holds_ofStrategies config clock strategies) turns
  have halone (drawn : Random.Generator) : alone drawn = (q.drawing drawn).fresh start := by
    rw [← (sameLayouts_afterTurns start turns).fresh]
    exact run_cleared (q.drawing drawn) e
  have hfails : ∀ cause, answer = .error cause → alone q.drawn = .error cause := by
    intro cause h
    rw [halone, ← fresh_of_error h]
    exact (sameLayouts_afterTurns start turns).fresh.symm
  refine ⟨hfails, fun r h => hfiled.recalled apart h, fun finite moves => ?_⟩
  have hrecalls : ∀ r, answer = .ok r →
      ∃ p, ComputesIn start (turns ++ [.call q]) p r ∧ p.AsksFor q usual ∧ alone p.drawn = .ok r := by
    intro r h
    obtain ⟨p, made, computes, texts, algorithm, hread⟩ := hfiled.recalled apart h
    have hasks : p.AsksFor q usual := computes.asksFor finite texts algorithm
    have hdata : p.data.AllFinite := hasks.data ▸ finite.data
    have hmoves := allStrategies_ofStrategies Strategy.movesOnly_ofAlgorithm moves config clock
    obtain rfl : made = r := hread.elim id fun hread =>
      ((LayoutEngine.recallable_of_compute? hmoves hdata computes.fresh).faithful r hread).symm
    refine ⟨p, computes, hasks, ?_⟩
    rw [halone, ← asksFor_fresh hasks]
    exact computes.fresh
  refine ⟨hrecalls, fun keep settled drawn => ?_⟩
  have hsame (drawn' : Random.Generator) : alone drawn = alone drawn' := by
    rw [halone, halone, fresh_drawing keep settled, fresh_drawing keep settled]
  cases hr : answer with
  | error cause => rw [hsame q.drawn, hfails cause hr]
  | ok r =>
    obtain ⟨p, -, -, hp⟩ := hrecalls r hr
    rw [hsame p.drawn, hp]

/-- A request for a node at random, with a seed. -/
def scattered (drawn : Random.Generator) : LayoutRequest :=
  { drawn, data := { nodes := [{ GraphNode.ofSymbol default with id := "a" }] }
    algorithm := some LayoutAlgorithm.random.tag, update := { seed := some 7 } }

theorem texts_scattered (drawn drawn' : Random.Generator) : (scattered drawn).texts = (scattered drawn').texts := rfl

theorem allFinite_scattered (drawn : Random.Generator) : (scattered drawn).AllFinite := by
  refine ⟨⟨?_, by simp [scattered], by simp [scattered]⟩, ?_⟩
  · simp only [scattered, List.forall_mem_cons, List.not_mem_nil, false_implies, implies_true, and_true]
    decide +kernel
  · simp [LayoutOptionsUpdate.AllFinite, LayoutOptionsUpdate.fractions, scattered]

/-- A layout is asked for once more after a while, and then something else is drawn. -/
theorem repeated_layout_is_recalled :
    let start := ofStrategies {} {} []
    let turns : List LayoutTurn := [.call (scattered (.ofSeed 1)), .elapse 1000]
    let q := scattered (.ofSeed 2)
    let e := start.afterTurns turns
    ∃ r, (q.routine.run e).1 = .ok r ∧ r.nodes.length = 1 ∧
      (∃ p, ComputesIn start (turns ++ [.call q]) p r ∧ p.AsksFor q start.defaultAlgorithm) ∧
      ∀ drawn, ((q.drawing drawn).routine.run ((clearCache (some .layout)).run e).2).1 = .ok r := by
  intro start turns q e
  have apart : Digest.TellsApart ((turns.flatMap LayoutTurn.requests ++ [q]).map LayoutRequest.texts) := by
    have same : ∀ texts ∈ (turns.flatMap LayoutTurn.requests ++ [q]).map LayoutRequest.texts, texts = q.texts := by
      simp [turns, LayoutTurn.requests, q, texts_scattered _ (.ofSeed 2)]
    exact Digest.tellsApart_of_same same
  have settled : q.IsSettled start := .inl nofun
  obtain ⟨recalled, transparent⟩ :=
    (layouts_are_recalled {} {} [] turns q apart).2.2 (allFinite_scattered _) nofun
  have same (drawn : Random.Generator) :
      ((q.drawing drawn).routine.run ((clearCache (some .layout)).run e).2).1 = (q.routine.run e).1 :=
    transparent nofun settled drawn
  have found : (q.fresh start).toOption.any (·.nodes.length == 1) = true := by decide +kernel
  obtain ⟨r, made, one⟩ := exists_ok_of_any found
  have answer : (q.routine.run e).1 = .ok r := by
    rw [← same q.drawn, show q.drawing q.drawn = q from rfl, run_cleared, (sameLayouts_afterTurns start turns).fresh, made]
  obtain ⟨p, computes, asks, -⟩ := recalled r answer
  exact ⟨r, answer, by simpa using one, ⟨p, computes, asks⟩, fun drawn => (same drawn).trans answer⟩

/-! An empty graph on a circle, and an edge by itself. -/

def onCircle (d : GraphData) (width : Option Float) : LayoutRequest :=
  { drawn := .ofSeed 0, data := d, algorithm := some LayoutAlgorithm.circular.tag, update := { width } }

def ratedEdge (strength : Float32) : GraphData :=
  { edges := [{ source := "a", target := "a", strength := 1.0, color := "", width := 2.0
                relationship := { sourceId := "a", targetId := "a", kind := .uses
                                  metadata := { strength := some strength } } }] }

/-- The cache of layouts is not transparent to all requests. A width that is not a number should
be refused, but it is answered with the layout of the usual width once that is held. A
relationship of endless strength is in the layout that is computed, but no longer in the layout
that is read back. -/
theorem layouts_are_mistaken :
    (¬ ∀ config clock turns q,
      Digest.TellsApart ((turns.flatMap LayoutTurn.requests ++ [q]).map LayoutRequest.texts) →
      let e := (ofConfig config clock).afterTurns turns
      (∃ cause, (q.routine.run e).1 = .error cause) ↔
        ∃ cause, (q.routine.run ((clearCache (some .layout)).run e).2).1 = .error cause) ∧
    ¬ ∀ config clock turns q,
      Digest.TellsApart ((turns.flatMap LayoutTurn.requests ++ [q]).map LayoutRequest.texts) →
      let start := ofConfig config clock
      ∀ r, (q.routine.run (start.afterTurns turns)).1 = .ok r →
        ∃ p, ComputesIn start (turns ++ [.call q]) p r ∧ p.AsksFor q start.defaultAlgorithm := by
  let start := ofConfig {} {}
  constructor
  · intro h
    let plain := onCircle {} none
    let odd := onCircle {} (some (0.0 / 0.0))
    have apart : Digest.TellsApart ([plain.texts, odd.texts]) := by
      refine Digest.tellsApart_of_same fun texts h => (List.mem_cons.mp h).elim id fun h => ?_
      rw [List.mem_singleton.mp h]
      decide +kernel
    have refused : (odd.fresh start).toOption.isSome = false := by decide +kernel
    have answered : (odd.routine.run (start.afterTurns [.call plain])).1.toOption.isSome = true := by decide +kernel
    have alone := run_cleared odd (start.afterTurns [.call plain])
    rw [(sameLayouts_afterTurns start [.call plain]).fresh] at alone
    cases made : odd.fresh start with
    | ok r => simp [made, Except.toOption] at refused
    | error cause =>
      obtain ⟨cause, failed⟩ := (h {} {} [.call plain] odd apart).mpr ⟨cause, alone.trans made⟩
      rw [failed] at answered
      cases answered
  · intro h
    let q := onCircle (ratedEdge (1.0 / 0.0)) none
    have apart : Digest.TellsApart [q.texts, q.texts] :=
      Digest.tellsApart_of_same fun texts h => by simpa using h
    have answered : (q.routine.run (start.afterTurns [.call q])).1.toOption.any
        (fun r => r.edges.any fun e => e.relationship.metadata.strength.isNone) = true := by decide +kernel
    obtain ⟨r, answer, unrated⟩ := exists_ok_of_any answered
    obtain ⟨p, computes, asks⟩ := h {} {} [.call q] q apart r answer
    have moves := LayoutEngine.allStrategies_ofDefaults Strategy.movesOnly_ofAlgorithm start.layout.defaults
    have edges := (LayoutEngine.moved_compute? moves computes.fresh).edges
    dsimp only at edges
    rw [edges, asks.data] at unrated
    cases unrated

end Engine

end CodeAtlas
