import CodeAtlas.Index.MemoryProvider
import CodeAtlas.Proofs.Cache.Holdings
import CodeAtlas.Proofs.Engine.Failures
import CodeAtlas.Service.Command

/-! Commands that are rejected.

A command is rejected when it cannot be read, or when it sets cache options that the
cache refuses (`dispatch_rejects_iff`); what goes wrong later has other codes
(`run_fails`). In both cases nothing has happened yet. So a rejected command leaves the
engine as it was, and no section of it changes anything for others
(`rejected_commands_change_nothing`). -/
namespace CodeAtlas
open Json

/-- An engine as it was, and nothing new announced; what the cache had announced may have
been passed on. -/
structure Engine.Unchanged (e e' : Engine) : Prop where
  others : { e' with cache := e.cache, signals := e.signals } = e
  cache : e'.cache.tidy = e.cache.tidy
  announced : e'.signals ++ e'.cache.signals = e.signals ++ e.cache.signals

namespace Engine

theorem Unchanged.refl (e : Engine) : Unchanged e e := ⟨rfl, rfl, rfl⟩

/-- A cache that is put back as it was only passes on what it had announced. -/
theorem unchanged_withCache (e : Engine) : Unchanged e (e.withCache e.cache) := ⟨rfl, rfl, List.append_nil _⟩

theorem withCache_eq_self {e : Engine} (h : e.cache.signals = []) : e.withCache e.cache = e := by
  obtain ⟨search, cache, layout, metrics, scope, algorithm, generation, timer, started, isShutDown, signals⟩ := e
  obtain ⟨entries, stats, options, clock, timer, nextSeq, announced⟩ := cache
  subst h
  simp [withCache]

end Engine

def rejectionCodes : List String := ["UNKNOWN_COMMAND", "INVALID_ARGUMENTS"]

/-! ### Reading -/

namespace CommandRequest

variable {α : Type} [Wire α]

theorem read_fails (r : CommandRequest) (name : String) (j : Json) :
    FailsWith rejectionCodes (r.read name j : Except AtlasError α) := by
  unfold read
  split
  · exact failsWith_ok _
  · exact failsWith_error (List.mem_cons_of_mem _ (List.mem_singleton_self _))

theorem required_fails (r : CommandRequest) (i : Nat) (name : String) :
    FailsWith rejectionCodes (r.required i name : Except AtlasError α) := by
  unfold required
  split
  · exact read_fails r name _
  · exact failsWith_error (List.mem_cons_of_mem _ (List.mem_singleton_self _))

theorem optional_fails (r : CommandRequest) (i : Nat) (name : String) :
    FailsWith rejectionCodes (r.optional i name : Except AtlasError (Option α)) := by
  unfold optional
  split
  · exact (read_fails r name _).map some
  · exact failsWith_ok _

theorem storeArgument_fails (r : CommandRequest) (i : Nat) : FailsWith rejectionCodes (r.storeArgument i) := by
  refine (optional_fails r i "store").bind fun found => ?_
  cases found with
  | none => exact failsWith_ok _
  | some name =>
    dsimp only
    split
    · exact failsWith_ok _
    · exact failsWith_error (List.mem_cons_of_mem _ (List.mem_singleton_self _))

/-- A request that cannot be read is rejected. -/
theorem command?_fails (r : CommandRequest) : FailsWith rejectionCodes r.command? := by
  unfold command?
  split
  case h_22 => exact failsWith_error List.mem_cons_self
  -- Every command reads its arguments one after the other, and is made of them.
  all_goals
    repeat' first
      | exact failsWith_ok _
      | exact required_fails r _ _
      | exact optional_fails r _ _
      | exact storeArgument_fails r _
      | refine FailsWith.bind ?_ fun _ => ?_

end CommandRequest

/-! ### Running -/

namespace Command

/-- The codes of what can go wrong when a command is run. -/
def runCodes : List String := layoutCodes ++ Engine.graphCodes ++ ["ANALYSIS_FAILED"]

/-- Does a command set cache options? -/
def setsOptions : Command → Bool
  | .setCacheOptions _ => true
  | _ => false

variable {c : Collaborators} {α : Type} [Wire α] {codes : List String}

/-- What fails when it is asked for fails when it is asked for by a command. -/
theorem encoded_fails {r : Routine Engine (Except AtlasError α)} (h : r.Yields (FailsWith codes))
    (hsub : codes ⊆ runCodes) :
    (do return (← r).map encode : Routine Engine (Except AtlasError Json)).Yields (FailsWith runCodes) :=
  Routine.ensures_bind h fun _ ha => fun err he => hsub (ha.map encode err he)

/-- What goes wrong when a command is run is never told as a rejection, except for cache
options that are refused. -/
theorem run_fails (command : Command) (h : command.setsOptions = false) :
    (command.run c).Yields (FailsWith runCodes) := by
  have hlayout : layoutCodes ⊆ runCodes := by decide
  have hgraph : Engine.graphCodes ⊆ runCodes := by decide
  have hquery : queryCodes ⊆ runCodes := by decide
  cases command with
  | setCacheOptions options => cases h
  | executeQuery q scope => exact encoded_fails (Engine.executeQuery_fails q scope) hquery
  | executeText text scope => exact encoded_fails (Engine.executeQuery_fails _ scope) hquery
  | getGraphData q scope => exact encoded_fails (Engine.getGraphData_fails q scope) hgraph
  | computeLayout data algorithm options =>
    exact encoded_fails (Engine.computeLayout_fails c.drawn data algorithm options) hlayout
  | computeIncrementalLayout data previous changed =>
    exact encoded_fails (Engine.computeIncrementalLayout_fails c.drawn data previous changed) hlayout
  | optimizeLayout layout iterations =>
    exact encoded_fails (Engine.optimizeLayout_fails c.drawn layout iterations) hlayout
  | buildIndex scope => exact encoded_fails (Engine.buildIndex_fails scope) (by decide)
  | findReferences uri p => exact encoded_fails (Engine.findReferences_fails uri p) (by decide)
  | analyzeLayoutQuality layout => exact failsWith_ok _
  | _ => exact Routine.yields_after fun _ => failsWith_ok _

end Command

/-! ### Rejected -/

theorem not_rejection_of_mem_runCodes : ∀ code ∈ Command.runCodes, code ∉ rejectionCodes := by decide

variable {c : Collaborators} {u : CacheOptionsUpdate} {r : CommandRequest} {e : Engine} {err fault : AtlasError}

/-- How cache options that are refused are told. -/
def refusedOptions (fault : AtlasError) : AtlasError := .invalidArguments "setCacheOptions" (.refused fault.message)

/-- How the command that sets cache options tells what came of it. -/
def toldOptions : Except AtlasError CacheOptions → Except AtlasError Json
  | .ok options => .ok options.toJson
  | .error fault => .error (refusedOptions fault)

theorem run_setCacheOptions (c : Collaborators) (u : CacheOptionsUpdate) :
    (Command.setCacheOptions u).run c = Engine.setCacheOptions u >>= fun answer => pure (toldOptions answer) := by
  rw [Command.run]
  refine congrArg (Engine.setCacheOptions u >>= ·) (funext fun answer => ?_)
  cases answer <;> rfl

/-- Options that are refused are not set; the cache is put back as it was. -/
theorem setCacheOptions_of_error (h : u.apply e.cache.options = .error fault) :
    (Engine.setCacheOptions u).run e = (.error fault, e.withCache e.cache) := by
  have hset : Cache.setOptions u e.cache = (.error fault, e.cache) := by rw [Cache.setOptions, h]
  show ((Cache.setOptions u e.cache).1, e.withCache (Cache.setOptions u e.cache).2) = _
  rw [hset]

theorem setCacheOptions_of_ok {options : CacheOptions} (h : u.apply e.cache.options = .ok options) :
    ((Engine.setCacheOptions u).run e).1 = .ok options := by
  have hset : (Cache.setOptions u e.cache).1 = .ok options := by rw [Cache.setOptions, h]
  exact hset

/-- A request cannot be read, or its cache options are refused, or it is not rejected. -/
theorem dispatch_cases (c : Collaborators) (r : CommandRequest) (e : Engine) :
    (∃ err, r.command? = .error err ∧ (dispatch c r).run e = (.error err, e)) ∨
    (∃ u fault, r.command? = .ok (.setCacheOptions u) ∧ u.apply e.cache.options = .error fault ∧
      (dispatch c r).run e = (.error (refusedOptions fault), e.withCache e.cache)) ∨
    ∃ command, r.command? = .ok command ∧
      (∀ u, command = .setCacheOptions u → ∃ options, u.apply e.cache.options = .ok options) ∧
      ∀ err, ((dispatch c r).run e).1 = .error err → err.code ∉ rejectionCodes := by
  cases hread : r.command? with
  | error err => exact .inl ⟨err, rfl, by rw [dispatch, hread]; rfl⟩
  | ok command =>
    right
    have hdispatch : dispatch c r = command.run c := by rw [dispatch, hread]
    rw [hdispatch]
    cases hsets : command.setsOptions with
    | false =>
      have hfails := Routine.Yields.run (command.run_fails (c := c) hsets) e
      have hno : ∀ u, command ≠ .setCacheOptions u := by
        rintro u rfl
        cases hsets
      exact .inr ⟨command, rfl, fun u hu => (hno u hu).elim, fun err herr =>
        not_rejection_of_mem_runCodes _ (hfails err herr)⟩
    | true =>
      cases command with
      | setCacheOptions u =>
        rw [run_setCacheOptions, Routine.run_bind]
        cases happly : u.apply e.cache.options with
        | error fault =>
          rw [setCacheOptions_of_error happly]
          exact .inl ⟨u, fault, rfl, happly, rfl⟩
        | ok options =>
          rw [setCacheOptions_of_ok happly]
          refine .inr ⟨_, rfl, fun u' hu => ?_, fun err herr => by cases herr⟩
          exact ⟨options, Command.setCacheOptions.inj hu ▸ happly⟩
      | _ => cases hsets

/-- A command is rejected exactly if it cannot be read, or sets cache options that are refused. -/
theorem dispatch_rejects_iff (c : Collaborators) (r : CommandRequest) (e : Engine) :
    (∃ err, ((dispatch c r).run e).1 = .error err ∧ err.code ∈ rejectionCodes) ↔
      (∃ err, r.command? = .error err) ∨
        ∃ u fault, r.command? = .ok (.setCacheOptions u) ∧ u.apply e.cache.options = .error fault := by
  obtain ⟨err, hread, hrun⟩ | ⟨u, fault, hread, hrefused, hrun⟩ | ⟨command, hread, haccepted, hfine⟩ :=
    dispatch_cases c r e
  · rw [hrun]
    exact ⟨fun _ => .inl ⟨err, hread⟩, fun _ => ⟨err, rfl, CommandRequest.command?_fails r err hread⟩⟩
  · rw [hrun]
    refine ⟨fun _ => .inr ⟨u, fault, hread, hrefused⟩, fun _ => ⟨_, rfl, ?_⟩⟩
    exact List.mem_cons_of_mem _ (List.mem_singleton_self _)
  · constructor
    · rintro ⟨err, herr, hcode⟩
      exact (hfine err herr hcode).elim
    · rintro (⟨err, herr⟩ | ⟨u, fault, hset, hrefused⟩)
      · rw [hread] at herr
        cases herr
      · rw [hread] at hset
        obtain ⟨options, hoptions⟩ := haccepted u (Except.ok.inj hset)
        rw [hrefused] at hoptions
        cases hoptions

/-- A rejected command took no section, or the one section that refused the cache options. -/
theorem rejected_sections {xs : List Engine} (h : (dispatch c r).Answers xs (.error err))
    (hcode : err.code ∈ rejectionCodes) :
    xs = [] ∨ ∃ e, xs = [e] ∧ ∀ e', (dispatch c r).Takes [] e e' → e' = e.withCache e.cache := by
  cases hread : r.command? with
  | error err' =>
    have hdispatch : dispatch c r = pure (.error err') := by rw [dispatch, hread]
    exact .inl (Routine.answers_pure (hdispatch ▸ h)).1
  | ok command =>
    have hdispatch : dispatch c r = command.run c := by rw [dispatch, hread]
    rw [hdispatch] at h ⊢
    cases hsets : command.setsOptions with
    | false =>
      have hfails := (command.run_fails (c := c) hsets).answers h (fun _ _ => trivial) fun _ _ => trivial
      exact (not_rejection_of_mem_runCodes _ (hfails err rfl) hcode).elim
    | true =>
      cases command with
      | setCacheOptions u =>
        rw [run_setCacheOptions] at h ⊢
        obtain ⟨e, rest, rfl, hrest⟩ := Routine.answers_atomic_bind h
        obtain ⟨rfl, htold⟩ := Routine.answers_pure hrest
        change toldOptions ((Engine.setCacheOptions u).run e).1 = _ at htold
        cases happly : u.apply e.cache.options with
        | error fault =>
          have hset := setCacheOptions_of_error happly
          refine .inr ⟨e, rfl, fun e' htakes => ?_⟩
          obtain ⟨-, he'⟩ | ⟨t, zs, hnil, -⟩ := Routine.takes_atomic_bind htakes
          · exact he'.trans (congrArg Prod.snd hset)
          · cases hnil
        | ok options =>
          rw [setCacheOptions_of_ok happly] at htold
          cases htold
      | _ => cases hsets

/-- A rejected command changes nothing and announces nothing, in whatever state the engine
is. If others run meanwhile, no section of it changes anything for them. -/
theorem rejected_commands_change_nothing (c : Collaborators) (r : CommandRequest) :
    (∀ e err, ((dispatch c r).run e).1 = .error err → err.code ∈ ["UNKNOWN_COMMAND", "INVALID_ARGUMENTS"] →
      e.Unchanged ((dispatch c r).run e).2 ∧ (e.cache.signals = [] → ((dispatch c r).run e).2 = e)) ∧
    ∀ xs err, (dispatch c r).Answers xs (.error err) → err.code ∈ ["UNKNOWN_COMMAND", "INVALID_ARGUMENTS"] →
      ∀ ys e zs e', xs = ys ++ e :: zs → (dispatch c r).Takes ys e e' →
        e.Unchanged e' ∧ (e.cache.signals = [] → e' = e) := by
  refine ⟨fun e err herr hcode => ?_, fun xs err h hcode ys e zs e' hxs htakes => ?_⟩
  · obtain ⟨err', -, hrun⟩ | ⟨u, fault, -, -, hrun⟩ | ⟨command, -, -, hfine⟩ := dispatch_cases c r e
    · rw [hrun]
      exact ⟨.refl e, fun _ => rfl⟩
    · rw [hrun]
      exact ⟨Engine.unchanged_withCache e, Engine.withCache_eq_self⟩
    · exact (hfine err herr hcode).elim
  · obtain rfl | ⟨first, rfl, hfirst⟩ := rejected_sections h hcode
    · cases ys <;> cases hxs
    · cases ys with
      | nil =>
        obtain ⟨rfl, -⟩ := List.cons.inj hxs
        rw [hfirst e' htakes]
        exact ⟨Engine.unchanged_withCache _, Engine.withCache_eq_self⟩
      | cons y ys => cases ys <;> cases hxs

/-- A cache is told to hold nothing. -/
def holdNothing : CommandRequest := ⟨"setCacheOptions", [.obj [("maxEntries", encode (0 : Nat))]]⟩

/-- After a query was answered and kept, the request is refused and nothing is touched. -/
theorem holdNothing_changes_nothing :
    let c : Collaborators := ⟨({} : MemoryProvider).provider, ({} : MemoryProvider).resolver, .ofSeed 0⟩
    let e := ((Engine.executeQuery c Engine.everything none).run (.ofConfig {} {})).2
    let err := refusedOptions (.badConfig "maxEntries must be positive")
    e.cache.entries.length = 1 ∧ ((dispatch c holdNothing).run e).1 = .error err ∧
      e.Unchanged ((dispatch c holdNothing).run e).2 ∧ ((dispatch c holdNothing).run e).2 = e ∧
      (dispatch c holdNothing).Answers [e] (.error err) ∧
      ∃ e', (dispatch c holdNothing).Takes [] e e' ∧ e.Unchanged e' := by
  intro c e err
  have hcode : err.code ∈ ["UNKNOWN_COMMAND", "INVALID_ARGUMENTS"] := by decide
  have hrun : ((dispatch c holdNothing).run e).1 = .error err := rfl
  have hanswers : (dispatch c holdNothing).Answers [e] (.error err) := rfl
  have htakes : (dispatch c holdNothing).Takes [] e (e.withCache e.cache) := ⟨_, _, rfl, rfl⟩
  obtain ⟨hruns, hsections⟩ := rejected_commands_change_nothing c holdNothing
  obtain ⟨hunchanged, hsame⟩ := hruns e err hrun hcode
  obtain ⟨hsection, -⟩ := hsections [e] err hanswers hcode [] e [] _ rfl htakes
  exact ⟨by decide +kernel, hrun, hunchanged, hsame rfl, hanswers, _, htakes, hsection⟩

end CodeAtlas
