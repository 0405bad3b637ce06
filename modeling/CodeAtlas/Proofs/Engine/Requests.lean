import CodeAtlas.Proofs.Engine.Calls
import CodeAtlas.Proofs.Index.Requests

/-! The requests an engine answers, any number of them at once.

Every request comes with the collaborators it asks, since what these answer changes in
the course of time. A build, an update and a clear of the index first change it and
then drop what derives from it, store by store (`Dropping`); others may run in between.
Requests that do not read only let go of what is kept (`Lets`), so as long as nobody
reads, what was dropped stays dropped, and when the request is done nothing is left
(`Emptied`). -/
namespace CodeAtlas

structure EngineRequest where
  collaborators : Collaborators
  call : EngineCall

/-- What happens to an engine from outside. -/
inductive EngineEvent where
  /-- Time passes, and what is due takes place. -/
  | elapse (ms : Nat)
  | cache (event : CacheEvent)

namespace EngineCall

def isRead : EngineCall → Bool
  | read _ => true
  | _ => false

/-- Has the index been changed, if this was the answer? -/
def Changed : EngineCall → EngineAnswer → Prop
  | buildIndex _, answer => ∃ summary, answer = .indexed (.ok summary)
  | updateIndex _, _ | clearIndex, _ => True
  | _, _ => False

end EngineCall

namespace Engine

variable {α : Type} {e e' e'' : Engine} {G : Index → Index → Prop}

def outside : EngineEvent → Engine → Engine
  | .elapse ms, e => e.elapse ms
  | .cache event, e => { e with cache := event.apply e.cache }

def system : System Engine EngineRequest EngineAnswer EngineEvent :=
  ⟨fun request => request.call.routine request.collaborators, outside⟩

/-- An engine and its requests after the first moves, from an engine that was just made. -/
def moment (config : AtlasConfig) (clock : Clock) (moves : List (System.Move EngineRequest EngineEvent)) (n : Nat) :
    System.World Engine EngineRequest EngineAnswer :=
  system.run (.ofConfig config clock) (moves.take n)

/-! ### Requests that do not read -/

/-- Nothing is kept that was not kept before. -/
structure Lets (e e' : Engine) : Prop where
  scope : e'.scope = e.scope
  settings : e'.search.settings = e.search.settings
  unrated : e.search.index.Unrated → e'.search.index.Unrated
  results : e'.search.results.entries ⊆ e.search.results.entries
  values : Cache.Shrinks e.cache e'.cache

theorem Lets.refl (e : Engine) : Lets e e := ⟨rfl, rfl, fun h => h, List.Subset.refl _, .refl e.cache⟩

theorem Lets.trans (h : Lets e e') (h' : Lets e' e'') : Lets e e'' :=
  ⟨h'.scope.trans h.scope, h'.settings.trans h.settings, fun hu => h'.unrated (h.unrated hu),
    List.Subset.trans h'.results h.results, h.values.trans h'.values⟩

theorem lets_withCache {c : Cache} (h : Cache.Shrinks e.cache c) : Lets e (e.withCache c) :=
  ⟨rfl, rfl, fun h => h, List.Subset.refl _, h⟩

theorem onCache_lets {r : Routine Cache α} (h : r.Does Cache.Shrinks) : (onCache r).Does Lets :=
  Routine.does_within h (fun _ _ hs => lets_withCache hs) Lets.refl

theorem changeCache_lets {f : Cache → Cache} (h : ∀ c, Cache.Shrinks c (f c)) : (changeCache f).Does Lets :=
  onCache_lets (Routine.does_atomic h)

theorem onIndex_lets {r : Routine Index α} (h : r.Does fun ix ix' => ix.Unrated → ix'.Unrated) :
    (onIndex r).Does Lets := by
  let Same (s s' : Search) : Prop :=
    s'.settings = s.settings ∧ (s.index.Unrated → s'.index.Unrated) ∧ s'.results = s.results
  have hsearch : (Search.onIndex r).Does Same :=
    Routine.does_within h (fun _ _ hix => ⟨rfl, hix, rfl⟩) fun s => ⟨rfl, fun h => h, rfl⟩
  refine Routine.does_within hsearch (fun s e hs => ?_) Lets.refl
  obtain ⟨hsettings, hunrated, hresults⟩ := hs
  exact ⟨rfl, hsettings, hunrated, by rw [withSearch, hresults]; exact List.Subset.refl _, .refl e.cache⟩

theorem scopeOr_lets (scope : Option QueryScope) : (scopeOr scope).Does Lets := by
  cases scope with
  | none => exact Routine.does_atomic Lets.refl
  | some s => trivial

theorem record_lets (f : Metrics → Metrics) : (record f).Does Lets :=
  Routine.does_atomic fun e => ⟨rfl, rfl, fun h => h, List.Subset.refl _, .refl e.cache⟩

theorem clearResults_lets : (onSearch Search.clearResults).Does Lets :=
  Routine.does_atomic fun e => ⟨rfl, rfl, fun h => h, List.nil_subset _, .refl e.cache⟩

theorem clearStores_lets (places : List CacheStore) : (clearStores places).Does Lets := by
  induction places with
  | nil => trivial
  | cons place rest ih =>
    exact Routine.does_bind (changeCache_lets (Cache.shrinks_clear (some place))) fun _ => ih

theorem dropIndexDerived_lets : dropIndexDerived.Does Lets :=
  Routine.does_bind clearResults_lets fun _ => clearStores_lets indexDerivedStores

theorem clearIndex_lets : clearIndex.Does Lets := by
  have hindex : (onIndex Index.clear).Does Lets :=
    onIndex_lets (Routine.does_atomic fun _ _ _ h => (List.not_mem_nil h).elim)
  have hsearch : (onSearch Search.clearIndex).Does Lets := ⟨hindex.1, fun b => clearResults_lets⟩
  exact Routine.does_bind hsearch fun _ => dropIndexDerived_lets

theorem call_lets (request : EngineRequest) (h : request.call.isRead = false) :
    (request.call.routine request.collaborators).Does Lets := by
  obtain ⟨c, call⟩ := request
  cases call with
  | read r => cases h
  | buildIndex scope =>
    refine Routine.does_bind (Routine.does_bind (scopeOr_lets scope) fun s => ?_) fun _ => trivial
    refine Routine.does_bind (onIndex_lets (Index.build_does_unrated c.provider c.resolver s)) fun built => ?_
    cases built with
    | error err => trivial
    | ok summary =>
      exact Routine.does_bind dropIndexDerived_lets fun _ => Routine.does_bind (record_lets _) fun _ => trivial
  | updateIndex uris =>
    refine Routine.does_bind (Routine.does_bind (onIndex_lets (Index.update_does_unrated c.provider uris)) ?_) fun _ => trivial
    exact fun summary => Routine.does_bind dropIndexDerived_lets fun _ => trivial
  | clearIndex => exact Routine.does_bind clearIndex_lets fun _ => trivial
  | clearCache place =>
    refine Routine.does_bind (Routine.does_bind (changeCache_lets (Cache.shrinks_clear place)) fun _ => ?_) fun _ => trivial
    cases place with
    | none => exact clearResults_lets
    | some place =>
      cases place with
      | queryResult => exact clearResults_lets
      | symbols | relationships | graphData | references | layout => trivial
  | optimizeCache =>
    exact Routine.does_bind (onCache_lets (Routine.does_atomic fun c => Cache.shrinks_evictAll _ c)) fun _ => trivial

theorem Keeps.lets (h : Keeps e e') (hscope : e'.scope = e.scope) : Lets e e' where
  scope := hscope
  settings := h.settings
  unrated hu := show e'.search.index.contents.Unrated from h.index ▸ hu
  results p hp := (h.results p hp).resolve_right List.not_mem_nil
  values place key data hd := (h.values place key data hd).resolve_right List.not_mem_nil

theorem scope_ticks (dues : List (Nat × Due)) (e : Engine) : (dues.foldl tick e).scope = e.scope := by
  induction dues generalizing e with
  | nil => rfl
  | cons due rest ih =>
    have htick : (e.tick due).scope = e.scope := by
      obtain ⟨moment, due⟩ := due
      cases due <;> rfl
    exact (ih _).trans htick

theorem outside_lets (event : EngineEvent) (e : Engine) : Lets e (outside event e) := by
  cases event with
  | elapse ms => exact (elapse_keeps ms e).lets (scope_ticks (e.dueUntil (e.cache.clock.now + ms)) e)
  | cache event =>
    refine ⟨rfl, rfl, fun h => h, List.Subset.refl _, ?_⟩
    cases event <;> exact .refl e.cache

/-! ### Dropping what derives from the index -/

/-- Nothing that derives from the index is kept. -/
structure Emptied (e : Engine) : Prop where
  results : e.search.results.entries = []
  values : ∀ place key data, e.cache.Holds place key data → place ∉ indexDerivedStores

/-- How far a request has come with dropping what derives from the index. -/
inductive Dropping : Routine Engine EngineAnswer → Engine → Prop where
  | begun {e : Engine} (f : Unit → Routine Engine EngineAnswer) : Dropping (dropIndexDerived >>= f) e
  | stores {e : Engine} {gone left : List CacheStore} (f : Unit → Routine Engine EngineAnswer)
      (all : gone ++ left = indexDerivedStores) (results : e.search.results.entries = [])
      (values : ∀ place key data, e.cache.Holds place key data → place ∉ gone) : Dropping (clearStores left >>= f) e
  | finished {r : Routine Engine EngineAnswer} {e : Engine} (h : Emptied e) : Dropping r e

variable {r r' : Routine Engine EngineAnswer}

theorem Emptied.lets (h : Emptied e) (hl : Lets e e') : Emptied e' :=
  ⟨List.subset_nil.mp (h.results ▸ hl.results), fun place key data hd => h.values place key data (hl.values _ _ _ hd)⟩

theorem Dropping.lets (h : Dropping r e) (hl : Lets e e') : Dropping r e' := by
  cases h with
  | begun f => exact .begun f
  | stores f all results values =>
    exact .stores f all (List.subset_nil.mp (results ▸ hl.results)) fun place key data hd =>
      values place key data (hl.values _ _ _ hd)
  | finished h => exact .finished (h.lets hl)

theorem Dropping.next (h : Dropping r e) (hn : r.next? e = some (r', e')) (hl : Lets e e') : Dropping r' e' := by
  cases h with
  | begun f =>
    cases hn
    have hnone : ∀ place key data, e.cache.Holds place key data → place ∉ [] := fun _ _ _ _ => List.not_mem_nil
    exact .stores f rfl rfl hnone
  | @stores _ gone left f all results values =>
    cases left with
    | nil =>
      have hall : gone = indexDerivedStores := by simpa using all
      exact .finished ((Emptied.mk results (hall ▸ values)).lets hl)
    | cons place rest =>
      cases hn
      have hcleared : ∀ place' key data, (Cache.clearStore place e.cache).Holds place' key data →
          place' ∉ gone ++ [place] := by
        intro place' key data hd
        have hgone := values place' key data (Cache.shrinks_clear (some place) e.cache _ _ _ hd)
        have hne : place' ≠ place := by
          rintro rfl
          exact Cache.not_holds_clearStore hd
        simp [hgone, hne]
      exact .stores f (by simpa using all) results hcleared
  | finished h => exact .finished (h.lets hl)

theorem Dropping.emptied {answer : EngineAnswer} (h : Dropping (.done answer) e) : Emptied e := by
  generalize hr : (Routine.done answer : Routine Engine EngineAnswer) = r at h
  cases h with
  | begun f => cases hr
  | @stores _ gone left f all results values =>
    cases left with
    | nil =>
      have hall : gone = indexDerivedStores := by simpa using all
      exact ⟨results, hall ▸ values⟩
    | cons place rest => cases hr
  | finished h => exact h

/-! ### While nobody reads -/

/-- The index has been changed, and next what derives from it is dropped. -/
def BeginsToDrop {α : Type} (r : Routine Engine α) : Prop := ∃ f, r = dropIndexDerived >>= f

theorem BeginsToDrop.bind {β : Type} {r : Routine Engine α} (h : BeginsToDrop r) (f : α → Routine Engine β) :
    BeginsToDrop (r >>= f) := by
  obtain ⟨g, rfl⟩ := h
  exact ⟨_, Routine.bind_assoc _ g f⟩

theorem buildIndex_passes (c : Collaborators) (scope : Option QueryScope) :
    (buildIndex c scope).Passes BeginsToDrop fun answer => ∃ summary, answer = .ok summary := by
  refine Routine.passes_bind fun s => Routine.passes_bind fun built => ?_
  cases built with
  | error err => exact .done fun ⟨summary, h⟩ => by cases h
  | ok summary => exact .here ⟨_, rfl⟩

theorem updateIndex_passes (c : Collaborators) (uris : List String) :
    (updateIndex c uris).Passes BeginsToDrop fun _ => True :=
  Routine.passes_bind fun summary => .here ⟨fun _ => pure summary, rfl⟩

theorem clearIndex_passes : clearIndex.Passes BeginsToDrop fun _ => True :=
  Routine.passes_bind fun _ => .here ⟨pure, (Routine.bind_pure dropIndexDerived).symm⟩

/-- A request that has changed the index has dropped what derives from it. -/
theorem call_passes (request : EngineRequest) :
    (system.routine request).Passes BeginsToDrop request.call.Changed := by
  obtain ⟨c, call⟩ := request
  have hnever : ∀ {r : Routine Engine EngineAnswer}, (∀ answer, ¬call.Changed answer) →
      r.Passes BeginsToDrop call.Changed := by
    intro r h
    induction r with
    | done answer => exact .done (h answer)
    | step act next ih => exact .step ih
    | pause rest ih => exact .pause ih
  cases call with
  | read r | clearCache place | optimizeCache => exact hnever fun _ h => h
  | buildIndex scope =>
    refine (buildIndex_passes c scope).bind (fun r h => h.bind _) fun answer hfails => .done ?_
    rintro ⟨summary, h⟩
    cases h
    exact hfails ⟨summary, rfl⟩
  | updateIndex uris => exact (updateIndex_passes c uris).bind (fun r h => h.bind _) fun _ h => (h trivial).elim
  | clearIndex => exact clearIndex_passes.bind (fun r h => h.bind _) fun _ h => (h trivial).elim

/-- No read is under way. -/
def isQuiet (w : System.World Engine EngineRequest EngineAnswer) : Bool :=
  w.calls.all fun c => !c.request.call.isRead || c.rest.answer?.isSome

variable {config : AtlasConfig} {clock : Clock} {moves : List (System.Move EngineRequest EngineEvent)}

/-- What is left of requests lets go, as long as no read is under way. -/
theorem rest_lets {n : Nat} (hquiet : isQuiet (moment config clock moves n) = true)
    {c : System.Call Engine EngineRequest EngineAnswer} (hc : c ∈ (moment config clock moves n).calls) :
    c.rest.Does Lets := by
  let G (request : EngineRequest) (e e' : Engine) : Prop := request.call.isRead = false → Lets e e'
  have hdoes : ∀ request, (system.routine request).Does (G request) := by
    intro request
    cases h : request.call.isRead with
    | true => exact (Routine.does_any _).mono fun _ _ _ hread => by simp [h] at hread
    | false => exact (call_lets request h).mono fun _ _ hl _ => hl
  have hrest := System.rest_does hdoes _ _ c hc
  have hcall := List.all_eq_true.mp hquiet c hc
  cases hread : c.request.call.isRead with
  | false => exact hrest.mono fun _ _ hl => hl hread
  | true =>
    simp only [hread, Bool.not_true, Bool.false_or] at hcall
    obtain ⟨a, ha⟩ := Option.isSome_iff_exists.mp hcall
    rw [Routine.eq_done_of_answer? ha]
    trivial

/-- If nobody reads while a request drops what derives from the index, nothing of it is
left when the request is done. -/
theorem emptied_of_quiet {dropping returned k : Nat} {c c' : System.Call Engine EngineRequest EngineAnswer}
    {answer : EngineAnswer} (hle : dropping ≤ returned) (hc : (moment config clock moves dropping).calls[k]? = some c)
    (hbegins : BeginsToDrop c.rest) (hquiet : ∀ n, dropping ≤ n → n ≤ returned → isQuiet (moment config clock moves n) = true)
    (hc' : (moment config clock moves returned).calls[k]? = some c') (hdone : c'.rest.answer? = some answer) :
    Emptied (moment config clock moves returned).state := by
  let Drops (n : Nat) (w : System.World Engine EngineRequest EngineAnswer) : Prop :=
    n ≤ returned → ∃ c, w.calls[k]? = some c ∧ Dropping c.rest w.state
  have hstart : Drops dropping (moment config clock moves dropping) := by
    obtain ⟨f, hf⟩ := hbegins
    exact fun _ => ⟨c, hc, hf ▸ .begun f⟩
  have hkeep : ∀ n, dropping ≤ n → Drops n (moment config clock moves n) →
      ∀ m, Drops (n + 1) (system.move (moment config clock moves n) m) := by
    intro n hn hdrops m hle
    obtain ⟨c, hc, hdropping⟩ := hdrops (Nat.le_of_succ_le hle)
    have hrest : ∀ c ∈ (moment config clock moves n).calls, c.rest.Does Lets := fun c hc =>
      rest_lets (hquiet n hn (Nat.le_of_succ_le hle)) hc
    generalize moment config clock moves n = w at hc hdropping hrest ⊢
    have hk : k < w.calls.length := (List.getElem?_eq_some_iff.mp hc).1
    obtain ⟨request, h⟩ | ⟨event, h⟩ | h | ⟨i, d, rest, e, hd, hnext, h⟩ := System.move_cases (S := system) w m <;> rw [h]
    · exact ⟨c, by rw [List.getElem?_append_left hk]; exact hc, hdropping⟩
    · exact ⟨c, hc, hdropping.lets (outside_lets event w.state)⟩
    · exact ⟨c, hc, hdropping⟩
    · have hlets : Lets w.state e := (Routine.does_next (hrest d (List.mem_of_getElem? hd)) hnext).1
      by_cases hik : i = k
      · subst hik
        obtain rfl := Option.some.inj (hc.symm.trans hd)
        exact ⟨_, List.getElem?_set_self hk, hdropping.next hnext hlets⟩
      · exact ⟨c, by rw [List.getElem?_set_ne hik]; exact hc, hdropping.lets hlets⟩
  obtain ⟨d, hd, hdropping⟩ := System.run_from (P := Drops) hstart hkeep returned hle (Nat.le_refl _)
  obtain rfl := Option.some.inj (hc'.symm.trans hd)
  exact (Routine.eq_done_of_answer? hdone ▸ hdropping).emptied

end Engine

end CodeAtlas
