import CodeAtlas.Engine.Basic
import CodeAtlas.Proofs.Query.Answer
import CodeAtlas.Proofs.Routine.Ensures

/-! How requests to an engine can fail.

Whatever others do meanwhile, a request is answered with an error of one of a few codes
(`FailsWith`). It does not matter what its sections find (`Yields`), since what it calls
tells its own failures: a query is refused or its index cannot be built
(`executeQuery_fails`), graph data may also be superseded (`getGraphData_fails`), and a
strategy's errors are told as failures of the layout (`computeLayout_fails`). -/
namespace CodeAtlas

namespace Routine

variable {σ τ α β : Type} {Q : α → Prop} {R : β → Prop}

/-- Whatever its sections find, the answer is as `Q` has it. -/
abbrev Yields (Q : α → Prop) (r : Routine σ α) : Prop := r.Ensures (fun _ => True) (fun _ => True) Q

theorem yields_any (r : Routine σ α) : r.Yields fun _ => True := r.does_any.ensures fun _ _ _ h => h

/-- The answer of the second part is as it should, whatever the first one answers. -/
theorem yields_after {r : Routine σ α} {f : α → Routine σ β} (h : ∀ a, (f a).Yields R) : (r >>= f).Yields R :=
  ensures_bind r.yields_any fun a _ => h a

theorem yields_atomic {act : StateM σ α} (h : ∀ s, Q (act s).1) : (atomic act).Yields Q :=
  ensures_atomic fun s _ _ => ⟨trivial, h s⟩

theorem Yields.within {r : Routine σ α} (h : r.Yields Q) (part : τ → σ) (update : σ → τ → τ) :
    (r.within part update).Yields Q :=
  ensures_within h (fun _ _ _ => ⟨trivial, trivial⟩) fun _ _ _ _ => trivial

theorem Yields.run {r : Routine σ α} (h : r.Yields Q) (s : σ) : Q (r.run s).1 := by
  induction r generalizing s with
  | done a => exact h
  | step act next ih => exact ih _ (h s trivial trivial).2 _
  | pause rest ih => exact ih h s

end Routine

/-- An error has one of these codes. -/
def FailsWith {α : Type} (codes : List String) (answer : Except AtlasError α) : Prop :=
  ∀ err, answer = .error err → err.code ∈ codes

variable {α β : Type} {codes codes' : List String}

theorem failsWith_ok (a : α) : FailsWith codes (.ok a) := fun _ h => by cases h

theorem failsWith_error {err : AtlasError} (h : err.code ∈ codes) : FailsWith codes (.error err : Except AtlasError α) :=
  fun _ he => Except.error.inj he ▸ h

/-- What fails as something it calls has failed. -/
theorem FailsWith.passOn {err : AtlasError} (h : FailsWith codes (.error err : Except AtlasError α))
    (hsub : codes ⊆ codes') : FailsWith codes' (.error err : Except AtlasError β) :=
  failsWith_error (hsub (h err rfl))

theorem FailsWith.map {answer : Except AtlasError α} (h : FailsWith codes answer) (f : α → β) :
    FailsWith codes (answer.map f) := by
  cases answer with
  | ok a => exact failsWith_ok _
  | error err => exact failsWith_error (h err rfl)

theorem FailsWith.bind {answer : Except AtlasError α} {f : α → Except AtlasError β} (h : FailsWith codes answer)
    (hf : ∀ a, FailsWith codes (f a)) : FailsWith codes (answer >>= f) := by
  cases answer with
  | ok a => exact hf a
  | error err => exact failsWith_error (h err rfl)

/-! ### Queries -/

def queryCodes : List String := ["INVALID_QUERY", "INDEX_BUILD_FAILED"]

theorem Index.build_fails (provider : Provider) (resolver : Resolver) (scope : QueryScope) :
    (Index.build provider resolver scope).Yields (FailsWith ["INDEX_BUILD_FAILED"]) := by
  -- Whether the resolver waits or not, the rest is the same.
  suffices h : (Index.build provider { resolver with waits := false } scope).Yields
      (FailsWith ["INDEX_BUILD_FAILED"]) by
    unfold Index.build at h ⊢
    cases resolver.waits
    · exact h
    · exact h
  unfold Index.build
  simp only [Bool.false_eq_true, if_false]
  split
  · exact failsWith_error (List.mem_singleton_self _)
  · exact Routine.yields_after fun _ => Routine.yields_after fun summary => failsWith_ok summary

namespace Search

variable {r : Routine Index (Except AtlasError α)} {provider : Provider} {resolver : Resolver} {limit : Int}
  {q : GraphQuery} {scope : QueryScope}

theorem onIndex_yields {Q : Except AtlasError α → Prop} (h : r.Yields Q) : (onIndex r).Yields Q := h.within _ _

theorem fillAndAnswer_fails : (fillAndAnswer provider resolver limit q scope).Yields (FailsWith queryCodes) := by
  have hanswer : (answerNow limit q scope (q.cacheKey scope)).Yields (FailsWith queryCodes) :=
    Routine.yields_after fun r => Routine.yields_after fun _ => failsWith_ok r
  refine Routine.yields_after fun isEmpty => ?_
  cases isEmpty with
  | false => exact hanswer
  | true =>
    refine Routine.ensures_bind (onIndex_yields (Index.build_fails provider resolver scope)) fun built hbuilt => ?_
    cases built with
    | error err => exact hbuilt.passOn (List.subset_cons_self _ _)
    | ok summary => exact hanswer

theorem execute_fails : (execute provider resolver q scope).Yields (FailsWith queryCodes) := by
  have hanew : (answerAnew provider resolver q scope).Yields (FailsWith queryCodes) := by
    unfold answerAnew
    split
    · exact failsWith_error List.mem_cons_self
    · exact Routine.yields_after fun _ => fillAndAnswer_fails
  refine Routine.yields_after fun found => ?_
  cases found with
  | some r => exact failsWith_ok r
  | none => exact hanew

end Search

namespace Engine

variable {c : Collaborators}

theorem onSearch_yields {r : Routine Search (Except AtlasError α)} {Q : Except AtlasError α → Prop} (h : r.Yields Q) :
    (onSearch r).Yields Q :=
  h.within _ _

theorem onLayout_yields {act : StateM LayoutEngine (Except AtlasError α)} {Q : Except AtlasError α → Prop}
    (h : ∀ e, Q (act e).1) : (onLayout act).Yields Q :=
  (Routine.yields_atomic h).within _ _

theorem executeQuery_fails (q : GraphQuery) (scope : Option QueryScope) :
    (executeQuery c q scope).Yields (FailsWith queryCodes) := by
  refine Routine.yields_after fun s => Routine.yields_after fun found => ?_
  cases found with
  | some found => exact Routine.yields_after fun _ => Routine.yields_after fun _ => failsWith_ok _
  | none =>
    refine Routine.ensures_bind (onSearch_yields Search.execute_fails) fun answer hanswer => ?_
    cases answer with
    | error err => exact hanswer
    | ok result => exact Routine.yields_after fun _ => Routine.yields_after fun _ => failsWith_ok _

def graphCodes : List String := "REQUEST_SUPERSEDED" :: queryCodes

theorem getGraphData_fails (q : Option GraphQuery) (scope : Option QueryScope) :
    (getGraphData c q scope).Yields (FailsWith graphCodes) := by
  -- A request that is no longer current is superseded.
  have hcurrent : ∀ {current : Bool} {r : Routine Engine (Except AtlasError GraphData)},
      r.Yields (FailsWith graphCodes) →
      (if !current then pure (.error superseded) else r).Yields (FailsWith graphCodes) := by
    intro current r hr
    cases current with
    | false => exact failsWith_error List.mem_cons_self
    | true => exact hr
  refine Routine.yields_after fun ticket => Routine.yields_after fun s => Routine.yields_after fun found => ?_
  refine Routine.yields_after fun current => hcurrent ?_
  cases found with
  | some found => exact failsWith_ok found
  | none =>
    refine Routine.ensures_bind (executeQuery_fails _ _) fun answer hanswer => ?_
    cases answer with
    | error err => exact hanswer.passOn (List.subset_cons_self _ _)
    | ok result =>
      refine Routine.yields_after fun current => hcurrent <| Routine.yields_after fun relationships => ?_
      exact Routine.yields_after fun current => hcurrent <| Routine.yields_after fun _ => failsWith_ok _

theorem buildIndex_fails (scope : Option QueryScope) :
    (buildIndex c scope).Yields (FailsWith ["INDEX_BUILD_FAILED"]) := by
  refine Routine.yields_after fun s => ?_
  have hbuild := onSearch_yields (Search.onIndex_yields (Index.build_fails c.provider c.resolver s))
  refine Routine.ensures_bind hbuild fun built hbuilt => ?_
  cases built with
  | error err => exact hbuilt
  | ok summary => exact Routine.yields_after fun _ => Routine.yields_after fun _ => failsWith_ok _

theorem findReferences_fails (uri : String) (p : Position) :
    (findReferences c uri p).Yields (FailsWith ["ANALYSIS_FAILED"]) := by
  refine Routine.yields_after fun found => ?_
  cases found with
  | some found => exact failsWith_ok found
  | none =>
    dsimp only
    split
    · exact failsWith_error (List.mem_singleton_self _)
    · exact Routine.yields_after fun _ => failsWith_ok _

end Engine

/-! ### Layouts -/

def layoutCodes : List String := ["UNKNOWN_ALGORITHM", "LAYOUT_COMPUTATION_FAILED"]

namespace LayoutEngine

theorem mem_layoutCodes (tag cause : String) : (AtlasError.layoutFailed tag cause).code ∈ layoutCodes :=
  List.mem_cons_of_mem _ (List.mem_singleton_self _)

theorem ensureUsable_fails (tag : String) (o : LayoutOptions) : FailsWith layoutCodes (ensureUsable tag o) := by
  unfold ensureUsable
  split
  · exact failsWith_error (mem_layoutCodes _ _)
  · exact failsWith_ok _

theorem ensureFinite_fails (tag : String) (nodes : List GraphNode) : FailsWith layoutCodes (ensureFinite tag nodes) := by
  unfold ensureFinite
  split
  · exact failsWith_error (mem_layoutCodes _ _)
  · exact failsWith_ok _

/-- Whatever a strategy complains of, it is told as a failure of the layout. -/
theorem mapError_asLayoutFailure_fails (tag : String) (answer : Except AtlasError α) :
    FailsWith layoutCodes (answer.mapError (asLayoutFailure tag)) := by
  cases answer with
  | ok a => exact failsWith_ok a
  | error err => cases err <;> exact failsWith_error (mem_layoutCodes _ _)

theorem parse_fails (text : String) : FailsWith layoutCodes (LayoutAlgorithm.parse text) := by
  unfold LayoutAlgorithm.parse
  dsimp only
  split
  case h_9 => exact failsWith_error List.mem_cons_self
  all_goals exact failsWith_ok _

theorem resolve_fails (e : LayoutEngine) (algorithm : String) : FailsWith layoutCodes (e.resolve algorithm) := by
  have hparse := parse_fails algorithm
  unfold resolve
  split
  · exact failsWith_ok _
  · split
    · rename_i cause hcause
      exact failsWith_error (hparse cause hcause)
    · split
      · exact failsWith_ok _
      · exact failsWith_error List.mem_cons_self

theorem compute?_fails (e : LayoutEngine) (drawn : Random.Generator) (d : GraphData) (algorithm : String)
    (u : LayoutOptionsUpdate) : FailsWith layoutCodes (e.compute? drawn d algorithm u) := by
  refine (resolve_fails e algorithm).bind fun (tag, strategy) => (ensureUsable_fails tag _).bind fun _ => ?_
  refine (mapError_asLayoutFailure_fails tag _).bind fun (placed, outcome) => ?_
  exact (ensureFinite_fails tag _).bind fun _ => failsWith_ok _

theorem incremental?_fails (drawn : Random.Generator) (d : GraphData) (previous : LayoutResult)
    (changed : List String) : FailsWith layoutCodes (incremental? drawn d previous changed) :=
  (ensureUsable_fails _ _).bind fun _ => (ensureFinite_fails _ _).bind fun _ => failsWith_ok _

theorem optimize?_fails (drawn : Random.Generator) (r : LayoutResult) (extra : Option Nat) :
    FailsWith layoutCodes (optimize? drawn r extra) :=
  (ensureUsable_fails _ _).bind fun _ => (ensureFinite_fails _ _).bind fun _ => failsWith_ok _

/-- To announce a layout or not does not change the answer. -/
theorem announcing_fst (tag : LayoutResult → String) (r : Except AtlasError LayoutResult) (e : LayoutEngine) :
    (announcing tag r e).1 = r := by
  cases r <;> rfl

end LayoutEngine

namespace Engine

theorem computeLayout_fails (drawn : Random.Generator) (data : GraphData) (algorithm : Option String)
    (u : LayoutOptionsUpdate) : (computeLayout drawn data algorithm u).Yields (FailsWith layoutCodes) := by
  refine Routine.yields_after fun usual => Routine.yields_after fun found => ?_
  cases found with
  | some found => exact failsWith_ok found
  | none =>
    have hcompute :
        (onLayout (LayoutEngine.compute drawn data (algorithm.getD usual) u)).Yields (FailsWith layoutCodes) :=
      onLayout_yields fun e => by
        rw [LayoutEngine.compute, LayoutEngine.announcing_fst]
        exact LayoutEngine.compute?_fails e drawn data _ u
    refine Routine.ensures_bind hcompute fun answer hanswer => ?_
    cases answer with
    | error err => exact hanswer
    | ok result => exact Routine.yields_after fun _ => Routine.yields_after fun _ => failsWith_ok _

theorem countLayout_fails {r : Except AtlasError LayoutResult} (h : FailsWith layoutCodes r) :
    (countLayout r).Yields (FailsWith layoutCodes) := by
  cases r with
  | error err => exact h
  | ok result => exact Routine.yields_after fun _ => failsWith_ok _

theorem computeIncrementalLayout_fails (drawn : Random.Generator) (data : GraphData) (previous : LayoutResult)
    (changed : List String) : (computeIncrementalLayout drawn data previous changed).Yields (FailsWith layoutCodes) := by
  refine Routine.ensures_bind (onLayout_yields fun e => ?_) fun _ => countLayout_fails
  rw [LayoutEngine.incremental, LayoutEngine.announcing_fst]
  exact LayoutEngine.incremental?_fails drawn data previous changed

theorem optimizeLayout_fails (drawn : Random.Generator) (r : LayoutResult) (extra : Option Nat) :
    (optimizeLayout drawn r extra).Yields (FailsWith layoutCodes) := by
  refine Routine.ensures_bind (onLayout_yields fun e => ?_) fun _ => countLayout_fails
  rw [LayoutEngine.optimize, LayoutEngine.announcing_fst]
  exact LayoutEngine.optimize?_fails drawn r extra

end Engine

end CodeAtlas
