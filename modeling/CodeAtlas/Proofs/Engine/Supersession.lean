import CodeAtlas.Proofs.Engine.Failures
import CodeAtlas.Proofs.Engine.Freshness

/-! Requests for graph data that overtake each other.

A request for graph data takes a number when it begins, and goes on only as long as no
other one has taken a number since. The generation of the engine is how many have begun
(`moment_counts`), so what a request compares at its checks is whether it is still the
newest. It follows that the newest request is never given up, that a request is given up
only after a newer one has begun, and that data made from the index is what the request's
own query and scope give, read while it was the newest (`newest_request_prevails`). -/
namespace CodeAtlas

/-- Is graph data asked for? -/
def EngineRequest.isGraph (request : EngineRequest) : Bool :=
  match request.call with
  | .read (.graph _ _) => true
  | _ => false

namespace Engine

open CodeAtlas.System (Taken seen)

variable {α : Type} {c : Collaborators} {request : EngineRequest} {past : List (Taken Engine EngineRequest)}
  {t : Taken Engine EngineRequest} {k : Nat}

/-! ### Who has begun -/

/-- A request for graph data begins with its first section. -/
def noteBegun (begun : List Nat) (t : Taken Engine EngineRequest) : List Nat :=
  if t.request.isGraph && !begun.contains t.call then begun ++ [t.call] else begun

/-- The requests for graph data that have begun, oldest first. -/
def begun (past : List (Taken Engine EngineRequest)) : List Nat := past.foldl noteBegun []

/-- The request for graph data that began last. -/
def newest? (past : List (Taken Engine EngineRequest)) : Option Nat := (begun past).getLast?

theorem begun_snoc (past : List (Taken Engine EngineRequest)) (t : Taken Engine EngineRequest) :
    begun (past ++ [t]) = noteBegun (begun past) t := by
  rw [begun, List.foldl_append]
  rfl

theorem mem_begun : k ∈ begun past ↔ ∃ t ∈ past, t.call = k ∧ t.request.isGraph = true := by
  induction past using List.reverseRecOn with
  | nil => simp [begun]
  | append_singleton past t ih =>
    have hnew : k ∈ noteBegun (begun past) t ↔ k ∈ begun past ∨ (t.call = k ∧ t.request.isGraph = true) := by
      unfold noteBegun
      by_cases hgraph : t.request.isGraph = true <;> by_cases hmem : t.call ∈ begun past <;> simp [hgraph, hmem, eq_comm]
      rintro rfl
      exact hmem
    rw [begun_snoc, hnew, ih]
    simp [or_and_right, exists_or]

theorem nodup_begun (past : List (Taken Engine EngineRequest)) : (begun past).Nodup := by
  induction past using List.reverseRecOn with
  | nil => exact List.nodup_nil
  | append_singleton past t ih =>
    rw [begun_snoc, noteBegun]
    split
    · rename_i h
      have hnew : t.call ∉ begun past := by simpa using (Bool.and_eq_true_iff.mp h).2
      exact List.nodup_append.mpr ⟨ih, List.nodup_singleton _, fun a ha b hb => by
        rintro rfl
        exact hnew (List.mem_singleton.mp hb ▸ ha)⟩
    · exact ih

/-- Who has begun stays so, and others begin later. -/
theorem begun_append (xs ys : List (Taken Engine EngineRequest)) : ∃ later, begun (xs ++ ys) = begun xs ++ later := by
  induction ys using List.reverseRecOn with
  | nil => exact ⟨[], by simp⟩
  | append_singleton ys t ih =>
    obtain ⟨later, hlater⟩ := ih
    rw [← List.append_assoc, begun_snoc, hlater, noteBegun]
    split
    · exact ⟨later ++ [t.call], List.append_assoc ..⟩
    · exact ⟨later, rfl⟩

/-- From its first section on a request is the newest as long as no other begins. -/
theorem newest_iff {xs ys : List (Taken Engine EngineRequest)} (hgraph : t.request.isGraph = true)
    (hfirst : t.call ∉ begun xs) :
    newest? (xs ++ t :: ys) = some t.call ↔ (begun (xs ++ t :: ys)).length = (begun xs).length + 1 := by
  obtain ⟨later, hlater⟩ := begun_append (xs ++ [t]) ys
  have hbegins : begun (xs ++ [t]) = begun xs ++ [t.call] := by
    rw [begun_snoc, noteBegun, if_pos (by simp [hgraph, hfirst])]
  have hnodup := nodup_begun (xs ++ [t] ++ ys)
  rw [hlater, hbegins] at hnodup
  rw [newest?, List.append_cons, hlater, hbegins]
  cases later using List.reverseRecOn with
  | nil => simp
  | append_singleton later j =>
    have hne : j ≠ t.call := by
      rintro rfl
      simp [List.nodup_append] at hnodup
    simp [← List.append_assoc, hne]
    omega

/-- Who is the newest at some time has been so since beginning. -/
theorem newest_of_later {xs ys : List (Taken Engine EngineRequest)} (hbegun : k ∈ begun xs)
    (h : newest? (xs ++ ys) = some k) : newest? xs = some k := by
  obtain ⟨later, hlater⟩ := begun_append xs ys
  have hnodup := nodup_begun (xs ++ ys)
  rw [newest?, hlater] at h
  rw [hlater] at hnodup
  cases later using List.reverseRecOn with
  | nil => simpa [newest?] using h
  | append_singleton later j =>
    obtain rfl : j = k := by simpa [← List.append_assoc] using h
    exact ((List.nodup_append.mp hnodup).2.2 j hbegun j (by simp) rfl).elim

/-! ### The generation -/

/-- No request for graph data begins. -/
def SameGeneration (e e' : Engine) : Prop := e'.graphGeneration = e.graphGeneration

theorem onCache_same (r : Routine Cache α) : (onCache r).Does SameGeneration :=
  Routine.does_within r.does_any (fun _ _ _ => rfl) fun _ => rfl

theorem onSearch_same (r : Routine Search α) : (onSearch r).Does SameGeneration :=
  Routine.does_within r.does_any (fun _ _ _ => rfl) fun _ => rfl

theorem scopeOr_same (scope : Option QueryScope) : (scopeOr scope).Does SameGeneration := by
  cases scope with
  | none => exact Routine.does_atomic fun _ => rfl
  | some s => trivial

theorem record_same (f : Metrics → Metrics) : (record f).Does SameGeneration := Routine.does_atomic fun _ => rfl

theorem announce_same (event : GraphEvent) : (announce event).Does SameGeneration := Routine.does_atomic fun _ => rfl

theorem isCurrent_same (ticket : Nat) : (isCurrent ticket).Does SameGeneration := Routine.does_atomic fun _ => rfl

theorem clearStores_same (places : List CacheStore) : (clearStores places).Does SameGeneration := by
  induction places with
  | nil => trivial
  | cons place rest ih => exact Routine.does_bind (onCache_same _) fun _ => ih

theorem dropIndexDerived_same : dropIndexDerived.Does SameGeneration :=
  Routine.does_bind (onSearch_same _) fun _ => clearStores_same indexDerivedStores

theorem executeQuery_same (q : GraphQuery) (scope : Option QueryScope) :
    (executeQuery c q scope).Does SameGeneration := by
  refine Routine.does_bind (scopeOr_same scope) fun s => Routine.does_bind (onCache_same _) fun found => ?_
  cases found with
  | some found => exact Routine.does_bind (announce_same _) fun _ => Routine.does_bind (record_same _) fun _ => trivial
  | none =>
    refine Routine.does_bind (onSearch_same _) fun answer => ?_
    cases answer with
    | error err => trivial
    | ok result => exact Routine.does_bind (onCache_same _) fun _ => Routine.does_bind (record_same _) fun _ => trivial

theorem cachedRead_same [Wire α] (place : CacheStore) (key : String) (read : Index → α)
    (dependencies : α → List String) : (cachedRead place key read dependencies).Does SameGeneration := by
  refine Routine.does_bind (onCache_same _) fun found => ?_
  cases found with
  | some found => trivial
  | none => exact Routine.does_bind (onSearch_same _) fun value => Routine.does_bind (onCache_same _) fun _ => trivial

theorem makeGraph_same (q : GraphQuery) (scope : QueryScope) (ticket : Nat) :
    (makeGraph c q scope ticket).Does SameGeneration := by
  refine Routine.does_bind (executeQuery_same q (some scope)) fun answer => ?_
  cases answer with
  | error err => trivial
  | ok result =>
    refine Routine.does_bind (isCurrent_same ticket) fun current => ?_
    cases current with
    | false => trivial
    | true =>
      refine Routine.does_bind (onSearch_same _) fun relationships => ?_
      refine Routine.does_bind (isCurrent_same ticket) fun current => ?_
      cases current with
      | false => trivial
      | true => exact Routine.does_bind (onCache_same _) fun _ => trivial

/-- What a request for graph data does once it has its number. -/
def numbered (c : Collaborators) (q : Option GraphQuery) (scope : Option QueryScope) (ticket : Nat) :
    Routine Engine (Except AtlasError GraphData) := do
  let scope ← scopeOr scope
  let q := q.getD everything
  let found : Option GraphData ← onCache (Cache.getAs .graphData (q.cacheKey scope))
  if !(← isCurrent ticket) then return .error superseded
  match found with
  | some data => return .ok data
  | none => makeGraph c q scope ticket

theorem getGraphData_eq (q : Option GraphQuery) (scope : Option QueryScope) :
    getGraphData c q scope = takeTicket >>= numbered c q scope := rfl

theorem numbered_same (q : Option GraphQuery) (scope : Option QueryScope) (ticket : Nat) :
    (numbered c q scope ticket).Does SameGeneration := by
  refine Routine.does_bind (scopeOr_same scope) fun s => Routine.does_bind (onCache_same _) fun found => ?_
  refine Routine.does_bind (isCurrent_same ticket) fun current => ?_
  cases current with
  | false => trivial
  | true =>
    cases found with
    | some data => trivial
    | none => exact makeGraph_same _ s ticket

theorem routine_same (h : request.isGraph = false) : (system.routine request).Does SameGeneration := by
  obtain ⟨c, call⟩ := request
  cases call with
  | read r =>
    cases r with
    | graph q scope => cases h
    | query q scope => exact Routine.does_bind (executeQuery_same q scope) fun _ => trivial
    | symbols uri => exact Routine.does_bind (cachedRead_same _ _ _ _) fun _ => trivial
    | relationships uri => exact Routine.does_bind (cachedRead_same _ _ _ _) fun _ => trivial
  | buildIndex scope =>
    refine Routine.does_bind (Routine.does_bind (scopeOr_same scope) fun s => ?_) fun _ => trivial
    refine Routine.does_bind (onSearch_same _) fun built => ?_
    cases built with
    | error err => trivial
    | ok summary =>
      exact Routine.does_bind dropIndexDerived_same fun _ => Routine.does_bind (record_same _) fun _ => trivial
  | updateIndex uris =>
    refine Routine.does_bind (Routine.does_bind (onSearch_same _) fun summary => ?_) fun _ => trivial
    exact Routine.does_bind dropIndexDerived_same fun _ => trivial
  | clearIndex =>
    refine Routine.does_bind (Routine.does_bind (onSearch_same _) fun _ => dropIndexDerived_same) fun _ => trivial
  | clearCache place =>
    refine Routine.does_bind (Routine.does_bind (onCache_same _) fun _ => ?_) fun _ => trivial
    split
    · exact onSearch_same _
    · exact onSearch_same _
    · trivial
  | optimizeCache => exact Routine.does_bind (onCache_same _) fun _ => trivial

/-- A section counts up if it is the first one of a request for graph data, and only then. -/
theorem routine_counts {xs : List Engine} {e e' : Engine} (h : (system.routine request).Takes xs e e') :
    e'.graphGeneration = if request.isGraph && xs.isEmpty then e.graphGeneration + 1 else e.graphGeneration := by
  cases hgraph : request.isGraph with
  | false => exact Routine.takes_does (G := SameGeneration) (routine_same hgraph) h
  | true =>
    obtain ⟨c, call⟩ := request
    cases call with
    | read r =>
      cases r with
      | graph q scope =>
        obtain hdata | ⟨ys, zs, answer, -, -, hpure⟩ := Routine.takes_bind h
        · rw [getGraphData_eq] at hdata
          obtain ⟨rfl, rfl⟩ | ⟨first, zs, rfl, hlater⟩ := Routine.takes_atomic_bind hdata
          · rfl
          · exact Routine.takes_does (G := SameGeneration) (numbered_same q scope _) hlater
        · exact (Routine.not_takes_pure hpure).elim
      | _ => cases hgraph
    | _ => cases hgraph

theorem outside_same (event : EngineEvent) (e : Engine) : SameGeneration e (outside event e) := by
  cases event with
  | elapse ms => exact (elapse_keeps ms e).generation
  | cache event => rfl

/-- Nobody has begun before the first section. -/
theorem mem_begun_iff (hgraph : t.request.isGraph = true)
    (hsame : ∀ u ∈ past, u.call = t.call → u.request = t.request) : t.call ∈ begun past ↔ seen past t.call ≠ [] := by
  rw [mem_begun]
  constructor
  · rintro ⟨u, hu, hcall, -⟩ hnone
    have hmem : u.before ∈ seen past t.call := List.mem_map.mpr ⟨u, List.mem_filter.mpr ⟨hu, by simp [hcall]⟩, rfl⟩
    rw [hnone] at hmem
    cases hmem
  · intro hseen
    obtain ⟨e, he⟩ := List.exists_mem_of_ne_nil _ hseen
    obtain ⟨u, hu, hcall, -⟩ := System.mem_seen he
    exact ⟨u, hu, hcall, hsame u hu hcall ▸ hgraph⟩

/-! ### The sections of a request -/

theorem scopeOr_answers {scope : Option QueryScope} {home s : QueryScope} {xs : List Engine}
    (h : (scopeOr scope).Answers xs s) (hhome : ∀ e ∈ xs, e.scope = home) : s = scope.getD home := by
  cases scope with
  | none =>
    obtain ⟨e, rfl, rfl⟩ := Routine.answers_atomic h
    exact hhome e (List.mem_singleton_self e)
  | some s' => exact (Routine.answers_pure h).2.symm

/-- What a lookup finds was held when its last section was taken. -/
theorem lookup_answers [Wire α] {place : CacheStore} {key : String} {value : α} {xs : List Engine}
    (h : (onCache (Cache.getAs place key : Routine Cache (Option α))).Answers xs (some value)) :
    ∃ mid found data, xs = mid ++ [found] ∧ found.cache.Holds place key data ∧ decode? data = some value := by
  obtain ⟨ys, zs, found, hxs, hget, hpure⟩ := Routine.answers_bind (Routine.answers_within h)
  obtain ⟨rfl, hdecode⟩ := Routine.answers_pure hpure
  obtain ⟨data, rfl, hdecode⟩ := Option.bind_eq_some_iff.mp hdecode
  obtain ⟨first, asked, last, e₀, e, rfl, -, he, -, rfl, -⟩ := Cache.get_answers hget
  rw [List.append_nil] at hxs
  obtain ⟨mid, rest, rfl, -, hrest⟩ := List.map_eq_append_iff.mp hxs
  obtain ⟨found, rfl, rfl⟩ := List.map_eq_singleton_iff.mp hrest
  obtain ⟨hplace, hkey⟩ := CacheEntry.isAt_iff.mp (Cache.isAt_of_find? he)
  exact ⟨mid, found, e.data, rfl, ⟨e, Cache.mem_of_find? he, hplace, hkey, rfl⟩, hdecode⟩

/-- A check finds the generation as it was numbered, or the request is given up. -/
theorem check_answers {ticket : Nat} {r : Routine Engine (Except AtlasError GraphData)} {xs : List Engine}
    {answer : Except AtlasError GraphData}
    (h : (do if !(← isCurrent ticket) then return Except.error superseded else r).Answers xs answer) :
    ∃ check rest, xs = check :: rest ∧
      ((check.graphGeneration ≠ ticket ∧ rest = [] ∧ answer = .error superseded) ∨
        (check.graphGeneration = ticket ∧ r.Answers rest answer)) := by
  obtain ⟨check, rest, hxs, hrest⟩ := Routine.answers_atomic_bind h
  refine ⟨check, rest, hxs, ?_⟩
  by_cases hcurrent : check.graphGeneration = ticket
  · rw [if_neg (by simp [hcurrent])] at hrest
    exact .inr ⟨hcurrent, hrest⟩
  · rw [if_pos (by simp [hcurrent])] at hrest
    obtain ⟨rfl, rfl⟩ := Routine.answers_pure hrest
    exact .inl ⟨hcurrent, rfl, rfl⟩

/-- How graph data is answered, from what the sections of the request found. -/
inductive GraphSections (c : Collaborators) (q : GraphQuery) (scope : QueryScope) :
    List Engine → Except AtlasError GraphData → Prop where
  | overtaken {first last : Engine} {mid : List Engine} (newer : last.graphGeneration ≠ first.graphGeneration + 1) :
    GraphSections c q scope (first :: mid ++ [last]) (.error superseded)
  | failed {first : Engine} {rest : List Engine} {err : AtlasError} (query : err.code ∈ queryCodes) :
    GraphSections c q scope (first :: rest) (.error err)
  | cached {first found last : Engine} {mid : List Engine} {json : Json} {data : GraphData}
    (current : last.graphGeneration = first.graphGeneration + 1)
    (held : found.cache.Holds .graphData (q.cacheKey scope) json) (decoded : decode? json = some data) :
    GraphSections c q scope (first :: mid ++ [found, last]) (.ok data)
  | made {first read last stored : Engine} {before asked checked : List Engine} {r : QueryResult}
    (current : last.graphGeneration = first.graphGeneration + 1)
    (query : (executeQuery c q (some scope)).Answers asked (.ok r)) :
    GraphSections c q scope (first :: (before ++ asked ++ checked) ++ [read, last, stored])
      (.ok (.ofParts r.symbols (read.search.index.relationshipsInScope scope ++ r.relationships)))

theorem makeGraph_sections {q : GraphQuery} {scope : QueryScope} {first : Engine} {before xs : List Engine}
    {answer : Except AtlasError GraphData}
    (h : (makeGraph c q scope (first.graphGeneration + 1)).Answers xs answer) :
    GraphSections c q scope (first :: (before ++ xs)) answer := by
  obtain ⟨asked, later, result, rfl, hasked, hresult⟩ := Routine.answers_bind h
  cases result with
  | error err =>
    obtain ⟨-, rfl⟩ := Routine.answers_pure hresult
    have hfails := (executeQuery_fails q (some scope)).answers hasked (fun _ _ => trivial) fun _ _ => trivial
    exact .failed (hfails err rfl)
  | ok result =>
    obtain ⟨checked, later, rfl, ⟨hnewer, rfl, rfl⟩ | ⟨-, hchecked⟩⟩ := check_answers hresult
    · have hovertaken := @GraphSections.overtaken c q scope first checked (before ++ asked) hnewer
      simpa using hovertaken
    obtain ⟨read, later, rfl, hread⟩ := Routine.answers_atomic_bind hchecked
    obtain ⟨last, later, rfl, ⟨hnewer, rfl, rfl⟩ | ⟨hcurrent, hlast⟩⟩ := check_answers hread
    · have hovertaken := @GraphSections.overtaken c q scope first last (before ++ asked ++ [checked, read]) hnewer
      simpa using hovertaken
    obtain ⟨stored, later, rfl, hstored⟩ := Routine.answers_atomic_bind hlast
    obtain ⟨rfl, rfl⟩ := Routine.answers_pure hstored
    have hmade := @GraphSections.made c q scope first read last stored before asked [checked] result hcurrent hasked
    simpa using hmade

theorem getGraphData_sections {q : Option GraphQuery} {scope : Option QueryScope} {home : QueryScope} {xs : List Engine}
    {answer : Except AtlasError GraphData} (h : (getGraphData c q scope).Answers xs answer)
    (hhome : ∀ e ∈ xs, e.scope = home) :
    GraphSections c (q.getD everything) (scope.getD home) xs answer := by
  rw [getGraphData_eq] at h
  obtain ⟨first, later, rfl, hnumbered⟩ := Routine.answers_atomic_bind h
  obtain ⟨asks, later, s, rfl, hscope, hscoped⟩ := Routine.answers_bind hnumbered
  obtain rfl := scopeOr_answers hscope fun e he => hhome e (by simp [he])
  obtain ⟨looked, later, found, rfl, hlooked, hfound⟩ := Routine.answers_bind hscoped
  obtain ⟨last, later, rfl, ⟨hnewer, rfl, rfl⟩ | ⟨hcurrent, hlast⟩⟩ := check_answers hfound
  · have hovertaken := @GraphSections.overtaken c (q.getD everything) (scope.getD home) first last (asks ++ looked) hnewer
    simpa using hovertaken
  cases found with
  | some data =>
    obtain ⟨rfl, rfl⟩ := Routine.answers_pure hlast
    obtain ⟨mid, found, json, rfl, hheld, hdecoded⟩ := lookup_answers hlooked
    have hcached := @GraphSections.cached c (q.getD everything) (scope.getD home) first found last (asks ++ mid) json
      data hcurrent hheld hdecoded
    simpa using hcached
  | none =>
    have hmade := @makeGraph_sections c _ _ first (asks ++ looked ++ [last]) later answer hlast
    simpa using hmade

section Moments

variable {config : AtlasConfig} {clock : Clock} {moves : List (System.Move EngineRequest EngineEvent)}

/-- The generation is how many requests for graph data have begun. -/
theorem moment_counts (n : Nat) :
    (moment config clock moves n).state.graphGeneration = (begun (moment config clock moves n).past).length := by
  refine System.run_keeps_taken (I := fun e past => e.graphGeneration = (begun past).length) rfl ?_ ?_ (moves.take n)
  · intro t past hpast hsame htakes
    rw [routine_counts htakes, begun_snoc, noteBegun, hpast]
    cases hgraph : t.request.isGraph with
    | false => rfl
    | true =>
      have hbegun := mem_begun_iff hgraph hsame
      by_cases hseen : seen past t.call = []
      · simp [hseen, hbegun.not.mpr (not_not.mpr hseen)]
      · simp [hseen, hbegun.mpr hseen]
  · exact fun e past event hpast => (outside_same event e).trans hpast

/-- What was known of the engine when a section was taken. -/
structure Known (config : AtlasConfig) (clock : Clock) (moves : List (System.Move EngineRequest EngineEvent))
    (before : List (Taken Engine EngineRequest)) (e : Engine) : Prop where
  counts : e.graphGeneration = (begun before).length
  fresh : e.Fresh (contentsFrom config clock moves 0) config.query.limit config.scope
  now : Now (contentsFrom config clock moves 0) e

theorem unrated_contentsFrom (start : Nat) : ∀ ix, contentsFrom config clock moves start ix → ix.Unrated := by
  rintro ix ⟨n, -, rfl⟩
  exact (moment_fresh n).search.unrated

/-- Whatever is kept, and every answer, is made of contents the index had in the run. -/
theorem fresh_from_start (n : Nat) :
    let P := contentsFrom config clock moves 0
    (moment config clock moves n).state.Fresh P config.query.limit config.scope ∧
      ∀ (k : Nat) (d : System.Call Engine EngineRequest EngineAnswer) (a : EngineAnswer),
        (moment config clock moves n).calls[k]? = some d → d.rest.answer? = some a →
        Promised P config.query.limit config.scope d.request a := by
  intro P
  have hnow : ∀ m, (system.run (ofConfig config clock) ((moves.take n).take m)).state.Now P := by
    intro m
    rw [List.take_take]
    exact ⟨min m n, Nat.zero_le _, rfl⟩
  have hrun := @System.run_ensures _ _ _ _ system (Fresh P config.query.limit config.scope) (Now P)
    (Promised P config.query.limit config.scope) (ofConfig config clock) (moves.take n) 0 fresh_ofConfig
    (fun _ h => (List.not_mem_nil h).elim) (request_ensures (unrated_contentsFrom 0))
    (fun e event he => he.lets (outside_lets event e)) fun m _ _ => hnow m
  refine ⟨hrun.1, fun k d a hd ha => ?_⟩
  have hanswer := hrun.2 k d (Nat.zero_le k) hd
  rw [Routine.eq_done_of_answer? ha] at hanswer
  exact hanswer

/-- At every section as many requests had begun as the generation says. -/
theorem section_known {xs ys : List (Taken Engine EngineRequest)}
    (h : (system.run (ofConfig config clock) moves).past = xs ++ t :: ys) : Known config clock moves xs t.before := by
  obtain ⟨n, -, hpast, hstate⟩ := System.exists_moment (ofConfig config clock) moves h
  have hcounts := @moment_counts config clock moves n
  have hfresh := (@fresh_from_start config clock moves n).1
  rw [moment, hpast, hstate] at hcounts
  rw [moment, hstate] at hfresh
  exact ⟨hcounts, hfresh, n, Nat.zero_le n, by rw [moment, hstate]⟩

/-! ### Overtaking -/

section Overtaking

variable {d : System.Call Engine EngineRequest EngineAnswer} {first last e : Engine} {mid between rest : List Engine}

/-- The generation tells at every section whether the request is still the newest. -/
theorem newest_iff_generation {t₀ : Taken Engine EngineRequest} {xs ws ys : List (Taken Engine EngineRequest)}
    (hpast : (system.run (ofConfig config clock) moves).past = xs ++ t₀ :: (ws ++ t :: ys))
    (hgraph : t₀.request.isGraph = true) (hfirst : seen xs t₀.call = []) :
    newest? (xs ++ t₀ :: ws) = some t₀.call ↔ t.before.graphGeneration = t₀.before.graphGeneration + 1 := by
  have hnew : t₀.call ∉ begun xs := by
    rw [mem_begun]
    rintro ⟨u, hu, hcall, -⟩
    have hseen : u.before ∈ seen xs t₀.call := List.mem_map.mpr ⟨u, List.mem_filter.mpr ⟨hu, by simp [hcall]⟩, rfl⟩
    rw [hfirst] at hseen
    cases hseen
  have hsplit : xs ++ t₀ :: (ws ++ t :: ys) = (xs ++ t₀ :: ws) ++ t :: ys := by simp
  rw [newest_iff hgraph hnew, (section_known hpast).counts, (section_known (hpast.trans hsplit)).counts]

/-- Every section of a request for graph data belongs to it. -/
theorem isGraph_of_call (hd : (system.run (ofConfig config clock) moves).calls[k]? = some d)
    (hgraph : d.request.isGraph = true) (ht : t ∈ (system.run (ofConfig config clock) moves).past) (hcall : t.call = k) :
    t.request.isGraph = true := by
  obtain ⟨d', hd', hrequest⟩ := (System.run_faithful system (ofConfig config clock) moves).request t ht
  rw [hcall, hd] at hd'
  rw [← hrequest, ← Option.some.inj hd']
  exact hgraph

/-- A section that finds another generation comes after a newer request has begun. -/
theorem overtaken_at (hd : (system.run (ofConfig config clock) moves).calls[k]? = some d)
    (hgraph : d.request.isGraph = true)
    (hseen : seen (system.run (ofConfig config clock) moves).past k = first :: (mid ++ e :: rest))
    (hnewer : e.graphGeneration ≠ first.graphGeneration + 1) :
    ∃ xs t ys, (system.run (ofConfig config clock) moves).past = xs ++ t :: ys ∧ t.call = k ∧ seen ys k = rest ∧
      k ∈ begun xs ∧ newest? xs ≠ some k := by
  obtain ⟨xs, t₀, ws, t, ys, hpast, rfl, rfl, hcall, rfl, hxs, hys⟩ := System.exists_two_taken hseen
  have hgraph₀ := isGraph_of_call hd hgraph (show t₀ ∈ _ by rw [hpast]; simp) rfl
  refine ⟨xs ++ t₀ :: ws, t, ys, by simp [hpast], hcall, hys, mem_begun.mpr ⟨t₀, by simp, rfl, hgraph₀⟩, ?_⟩
  exact fun hnewest => hnewer ((newest_iff_generation hpast hgraph₀ hxs).mp hnewest)

/-- As long as a later section finds the generation unchanged, the request was the newest before. -/
theorem newest_at (hd : (system.run (ofConfig config clock) moves).calls[k]? = some d)
    (hgraph : d.request.isGraph = true)
    (hseen : seen (system.run (ofConfig config clock) moves).past k = first :: (mid ++ e :: last :: rest))
    (hcurrent : last.graphGeneration = first.graphGeneration + 1) :
    ∃ xs t ys, (system.run (ofConfig config clock) moves).past = xs ++ t :: ys ∧ t.call = k ∧ t.before = e ∧
      seen ys k = last :: rest ∧ newest? (xs ++ [t]) = some k := by
  obtain ⟨xs, t₀, ws, t, later, hpast, rfl, rfl, hcall, rfl, hxs, hlater⟩ := System.exists_two_taken hseen
  obtain ⟨vs, tₗ, ys, rfl, -, rfl, -, -⟩ := System.exists_taken (List.nil_append (last :: rest) ▸ hlater)
  have hgraph₀ := isGraph_of_call hd hgraph (show t₀ ∈ _ by rw [hpast]; simp) rfl
  have hpast' : (system.run (ofConfig config clock) moves).past = xs ++ t₀ :: (ws ++ t :: vs ++ tₗ :: ys) := by
    simp [hpast]
  have hnewest := (newest_iff_generation hpast' hgraph₀ hxs).mpr hcurrent
  refine ⟨xs ++ t₀ :: ws, t, vs ++ tₗ :: ys, by simp [hpast], hcall, rfl, hlater, ?_⟩
  have hlatest : newest? (xs ++ t₀ :: ws ++ [t] ++ vs) = some t₀.call := by simpa using hnewest
  exact newest_of_later (mem_begun.mpr ⟨t₀, by simp, rfl, hgraph₀⟩) hlatest

/-- Whatever a section of a call finds is made of contents the index had in the run. -/
theorem known_of_seen (he : e ∈ seen (system.run (ofConfig config clock) moves).past k) :
    e.Fresh (contentsFrom config clock moves 0) config.query.limit config.scope ∧
      e.Now (contentsFrom config clock moves 0) := by
  obtain ⟨t, ht, -, rfl⟩ := System.mem_seen he
  obtain ⟨xs, ys, hpast⟩ := List.append_of_mem ht
  exact ⟨(section_known hpast).fresh, (section_known hpast).now⟩

variable {q : Option GraphQuery} {scope : Option QueryScope} {answer : Except AtlasError GraphData}

/-- The answer of a call for graph data is told from what its sections found. -/
theorem graphSections_of_answer (hd : (system.run (ofConfig config clock) moves).calls[k]? = some d)
    (hcall : d.request.call = .read (.graph q scope)) (hdone : d.rest.answer? = some (.graph answer)) :
    GraphSections d.request.collaborators (q.getD everything) (scope.getD config.scope)
      (seen (system.run (ofConfig config clock) moves).past k) answer := by
  have hreplay := (System.run_faithful system (ofConfig config clock) moves).rest k d hd
  rw [Routine.eq_done_of_answer? hdone] at hreplay
  have hanswers : (d.request.call.routine d.request.collaborators).Answers
      (seen (system.run (ofConfig config clock) moves).past k) (.graph answer) := hreplay
  rw [hcall] at hanswers
  obtain ⟨asked, rest, a, hseen, hasked, hpure⟩ := Routine.answers_bind hanswers
  obtain ⟨rfl, ha⟩ := Routine.answers_pure hpure
  obtain rfl := EngineAnswer.graph.inj ha
  have hhome : ∀ e ∈ seen (system.run (ofConfig config clock) moves).past k, e.scope = config.scope := fun e he =>
    (known_of_seen he).1.scope
  rw [hseen, List.append_nil] at hhome ⊢
  exact getGraphData_sections hasked hhome

variable {query : GraphQuery} {home : QueryScope}

/-- A request is superseded only after a newer one has begun. -/
theorem overtaken_of_superseded (hd : (system.run (ofConfig config clock) moves).calls[k]? = some d)
    (hgraph : d.request.isGraph = true)
    (h : GraphSections c query home (seen (system.run (ofConfig config clock) moves).past k) (.error superseded)) :
    ∃ xs t ys, (system.run (ofConfig config clock) moves).past = xs ++ t :: ys ∧ t.call = k ∧ seen ys k = [] ∧
      k ∈ begun xs ∧ newest? xs ≠ some k := by
  generalize hseen : seen (system.run (ofConfig config clock) moves).past k = sections at h
  cases h with
  | overtaken hnewer => exact overtaken_at hd hgraph hseen hnewer
  | failed hquery => exact absurd hquery (by decide)

/-- Data is answered by a request that was the newest when it found the data or its parts. -/
theorem newest_of_data (hd : (system.run (ofConfig config clock) moves).calls[k]? = some d)
    (hgraph : d.request.isGraph = true) {data : GraphData}
    (h : GraphSections c query home (seen (system.run (ofConfig config clock) moves).past k) (.ok data)) :
    ∃ xs t ys, (system.run (ofConfig config clock) moves).past = xs ++ t :: ys ∧ t.call = k ∧
      newest? (xs ++ [t]) = some k ∧
      (((seen ys k).length = 1 ∧
          ∃ json, t.before.cache.Holds .graphData (query.cacheKey home) json ∧ decode? json = some data) ∨
        ((seen ys k).length = 2 ∧
          ∃ r, query.AnsweredFrom (contentsFrom config clock moves 0) config.query.limit home r ∧
            data = .ofParts r.symbols (t.before.search.index.relationshipsInScope home ++ r.relationships))) := by
  have hknown := fun e => @known_of_seen k config clock moves e
  generalize hseen : seen (system.run (ofConfig config clock) moves).past k = sections at h hknown
  cases h with
  | @cached first found last mid json _ hcurrent hheld hdecoded =>
    obtain ⟨xs, t, ys, hpast, ht, rfl, hys, hnewest⟩ := newest_at hd hgraph hseen hcurrent
    exact ⟨xs, t, ys, hpast, ht, hnewest, .inl ⟨by rw [hys]; rfl, json, hheld, hdecoded⟩⟩
  | @made first read last stored before asked checked r hcurrent hquery =>
    obtain ⟨xs, t, ys, hpast, ht, rfl, hys, hnewest⟩ := newest_at hd hgraph hseen hcurrent
    have hasked : ∀ e ∈ asked, e.Fresh (contentsFrom config clock moves 0) config.query.limit config.scope ∧
        e.Now (contentsFrom config clock moves 0) := fun e he => hknown e (by simp [he])
    have hfrom := (executeQuery_ensures (unrated_contentsFrom 0) (some home)).answers hquery
      (fun e he => (hasked e he).1) (fun e he => (hasked e he).2) r rfl
    exact ⟨xs, t, ys, hpast, ht, hnewest, .inr ⟨by rw [hys]; rfl, r, hfrom, rfl⟩⟩

/-- Whatever data is answered is drawn from contents the index had in the run. -/
theorem drawnFrom_of_answer {data : GraphData} (hd : (system.run (ofConfig config clock) moves).calls[k]? = some d)
    (hcall : d.request.call = .read (.graph q scope)) (hdone : d.rest.answer? = some (.graph (.ok data))) :
    (q.getD everything).DrawnFrom (contentsFrom config clock moves 0) config.query.limit (scope.getD config.scope)
      data := by
  have hall : moment config clock moves moves.length = system.run (ofConfig config clock) moves := by
    rw [moment, List.take_length]
  have hpromised := (@fresh_from_start config clock moves moves.length).2 k d _ (hall ▸ hd) hdone
  exact hpromised _ hcall

end Overtaking

end Moments

/-- Of overlapping requests for graph data the newest one prevails. It is never superseded,
and a request that is superseded was overtaken before its last section. Data is answered
by a request that was the newest when it found it: it was kept for the same query and
scope (then only the check followed), or it is made of what the query was answered and of
the relationships that the last look at the index found (then the check and the storing
followed). -/
theorem newest_request_prevails (config : AtlasConfig) (clock : Clock)
    (moves : List (System.Move EngineRequest EngineEvent)) (k : Nat)
    (d : System.Call Engine EngineRequest EngineAnswer) (q : Option GraphQuery) (scope : Option QueryScope)
    (answer : Except AtlasError GraphData) (hd : (system.run (ofConfig config clock) moves).calls[k]? = some d)
    (hcall : d.request.call = .read (.graph q scope)) (hdone : d.rest.answer? = some (.graph answer)) :
    let past := (system.run (ofConfig config clock) moves).past
    let contents := contentsFrom config clock moves 0
    let query := q.getD everything
    let scope := scope.getD config.scope
    (newest? past = some k → answer ≠ .error superseded) ∧
    (answer = .error superseded → ∃ xs t ys, past = xs ++ t :: ys ∧ t.call = k ∧ seen ys k = [] ∧
      k ∈ begun xs ∧ newest? xs ≠ some k) ∧
    ∀ data, answer = .ok data → query.DrawnFrom contents config.query.limit scope data ∧
      ∃ xs t ys, past = xs ++ t :: ys ∧ t.call = k ∧ newest? (xs ++ [t]) = some k ∧
        (((seen ys k).length = 1 ∧
            ∃ json, t.before.cache.Holds .graphData (query.cacheKey scope) json ∧ decode? json = some data) ∨
          ((seen ys k).length = 2 ∧ ∃ r, query.AnsweredFrom contents config.query.limit scope r ∧
            data = .ofParts r.symbols (t.before.search.index.relationshipsInScope scope ++ r.relationships))) := by
  intro past contents query home
  have hgraph : d.request.isGraph = true := by rw [EngineRequest.isGraph, hcall]
  have hsections : GraphSections d.request.collaborators query home (seen past k) answer :=
    graphSections_of_answer hd hcall hdone
  refine ⟨?_, ?_, ?_⟩
  · rintro hnewest rfl
    obtain ⟨xs, t, ys, hpast, -, -, hbegun, hnot⟩ := overtaken_of_superseded hd hgraph hsections
    have hlater : newest? (xs ++ t :: ys) = some k := hpast ▸ hnewest
    exact hnot (newest_of_later hbegun hlater)
  · rintro rfl
    exact overtaken_of_superseded hd hgraph hsections
  · rintro data rfl
    exact ⟨drawnFrom_of_answer hd hcall hdone, newest_of_data hd hgraph hsections⟩

/-! ### Two requests at once -/

/-- What a request for graph data was answered, as far as can be compared: its error, or the
number of its nodes. -/
def outcome? : EngineAnswer → Option (Except AtlasError Nat)
  | .graph r => some (r.map (·.nodes.length))
  | _ => none

theorem exists_graph_of_outcome {w : System.World Engine EngineRequest EngineAnswer} {k : Nat}
    {outcome : Except AtlasError Nat} (h : (answered? w k).bind outcome? = some outcome) :
    ∃ d r, w.calls[k]? = some d ∧ d.rest.answer? = some (.graph r) ∧ r.map (·.nodes.length) = outcome := by
  obtain ⟨answer, hanswer, houtcome⟩ := Option.bind_eq_some_iff.mp h
  obtain ⟨d, hd, hanswer⟩ := Option.bind_eq_some_iff.mp hanswer
  cases answer with
  | graph r => exact ⟨d, r, hd, hanswer, Option.some.inj houtcome⟩
  | _ => cases houtcome

/-- The graph of the small workspace is asked for. -/
def askForGraph : EngineRequest := ⟨askForFile.collaborators, .read (.graph none none)⟩

/-- It is asked for twice: both requests begin, then each runs to its end. -/
def overtaking : List (System.Move EngineRequest EngineEvent) :=
  served askForGraph 0 1 ++ served askForGraph 1 1 ++ List.replicate 3 (.go 0) ++ List.replicate 18 (.go 1)

/-- The first request is superseded, and was overtaken before its last section; the second
one is answered with the graph of the file. -/
theorem first_request_gives_way :
    let w := system.run (ofConfig {} {}) overtaking
    (∃ d, w.calls[0]? = some d ∧ d.rest.answer? = some (.graph (.error superseded)) ∧
      ∃ xs t ys, w.past = xs ++ t :: ys ∧ t.call = 0 ∧ seen ys 0 = [] ∧ 0 ∈ begun xs ∧ newest? xs ≠ some 0) ∧
    ∃ d data, w.calls[1]? = some d ∧ d.rest.answer? = some (.graph (.ok data)) ∧ data.nodes.length = 1 ∧
      everything.DrawnFrom (contentsFrom {} {} overtaking 0) ({} : QuerySettings).limit {} data := by
  intro w
  have houtcomes : [0, 1].map (fun k => (answered? w k).bind outcome?) = [some (.error superseded), some (.ok 1)] := by
    decide +kernel
  obtain ⟨hfirst, hsecond⟩ := List.cons.inj houtcomes
  have hcall : ∀ k < 2, ∀ d, w.calls[k]? = some d → d.request.call = .read (.graph none none) := by
    intro k hk d hd
    have hrequests : w.calls.map System.Call.request = [askForGraph, askForGraph] := System.requests_run _ overtaking
    have hd' : [askForGraph, askForGraph][k]? = some d.request := by rw [← hrequests, List.getElem?_map, hd]; rfl
    have hrequest : d.request = askForGraph := by simpa using List.mem_of_getElem? hd'
    rw [hrequest]
    rfl
  refine ⟨?_, ?_⟩
  · obtain ⟨d, r, hd, hr, herror⟩ := exists_graph_of_outcome hfirst
    cases r with
    | ok data => cases herror
    | error err =>
      obtain rfl := Except.error.inj herror
      have hprevails := newest_request_prevails {} {} overtaking 0 d none none _ hd (hcall 0 (by decide) d hd) hr
      exact ⟨d, hd, hr, hprevails.2.1 rfl⟩
  · obtain ⟨d, r, hd, hr, hnodes⟩ := exists_graph_of_outcome (List.cons.inj hsecond).1
    cases r with
    | error err => cases hnodes
    | ok data =>
      have hprevails := newest_request_prevails {} {} overtaking 1 d none none _ hd (hcall 1 (by decide) d hd) hr
      exact ⟨d, data, hd, hr, Except.ok.inj hnodes, (hprevails.2.2 data rfl).1⟩

end Engine

end CodeAtlas
