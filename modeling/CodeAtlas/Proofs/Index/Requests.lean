import CodeAtlas.Proofs.Index.Filing

/-! The calls that change an index.

Each call brings its own provider and resolver: what they answer may change from call
to call. Calls are made one after the other (`after`), or any number of them are under
way at once (`system`). Either way, after every section the symbols, the files and the
names of the index agree (`history_filed`), since no section changes one without the
others. -/
namespace CodeAtlas

inductive IndexCall where
  | build (provider : Provider) (resolver : Resolver) (scope : QueryScope)
  | update (provider : Provider) (uris : List String)
  | clear

/-- What a call is answered with. -/
inductive IndexAnswer where
  | built (r : Except AtlasError IndexSummary)
  | updated (summary : IndexSummary)
  | cleared

def IndexCall.routine : IndexCall → Routine Index IndexAnswer
  | build provider resolver scope => do return .built (← Index.build provider resolver scope)
  | update provider uris => do return .updated (← Index.update provider uris)
  | clear => do
    Index.clear
    return .cleared

namespace Index

variable {ix : Index}

/-- A new index after some calls, one after the other. -/
def after (calls : List IndexCall) : Index := calls.foldl (fun ix call => (call.routine.run ix).2) {}

/-- What was announced so far may be delivered at any time. -/
def system : System Index IndexCall IndexAnswer Unit := ⟨IndexCall.routine, fun _ => tidy⟩

/-- An index and its calls after some moves, from a new index. -/
def history (moves : List (System.Move IndexCall Unit)) : System.World Index IndexCall IndexAnswer :=
  system.run {} moves

/-! ### Sections -/

theorem build_does {G : Index → Index → Prop} {provider : Provider} {resolver : Resolver} {scope : QueryScope}
    (hwait : ∀ ix, G ix ix) (hcount : ∀ n ix, G ix (countRequests ix n))
    (hreplace : ∀ analyses relationships failed, Analyzed provider analyses →
      relationships = scan provider (analyses.map FileAnalysis.uri) →
      ∀ ix, G ix (replace analyses relationships failed ix).2) :
    (build provider resolver scope).Does G := by
  -- Whether the resolver waits or not, the rest is the same.
  suffices h : (build provider { resolver with waits := false } scope).Does G by
    unfold build at h ⊢
    cases resolver.waits
    · exact h
    · exact ⟨hwait, h⟩
  unfold build
  simp only [Bool.false_eq_true, if_false]
  split
  · trivial
  · refine Routine.does_bind (Routine.does_atomic fun ix => hcount _ ix) fun _ => ?_
    refine Routine.does_bind (Routine.does_atomic fun ix => ?_) fun _ => trivial
    exact hreplace _ _ _ (analyzed_analyzeAll provider _) rfl ix

theorem update_does {G : Index → Index → Prop} {provider : Provider} {uris : List String}
    (hlook : ∀ ix, G ix ix) (hcount : ∀ n ix, G ix (countRequests ix n))
    (hfiles : ∀ ix, G ix (replaceFiles uris (analyzeAll provider uris) ix))
    (hrelationships : ∀ indexed failed quarantined ix,
      G ix (replaceRelationships uris (scan provider indexed) failed quarantined ix).2) :
    (update provider uris).Does G := by
  refine Routine.does_bind (Routine.does_atomic fun ix => hcount _ ix) fun _ => ?_
  refine Routine.does_bind (Routine.does_atomic hfiles) fun _ => ?_
  refine Routine.does_bind (Routine.does_atomic hlook) fun indexed => ?_
  exact Routine.does_atomic (hrelationships indexed _ _)

/-- Relationships come from scans, and scans give them no strength. -/
theorem build_does_unrated (provider : Provider) (resolver : Resolver) (scope : QueryScope) :
    (build provider resolver scope).Does fun ix ix' => ix.Unrated → ix'.Unrated := by
  refine build_does (fun _ h => h) (fun _ _ h => h) fun analyses relationships failed _ hscan ix _ => ?_
  show ∀ rs ∈ relationships.values, _
  exact hscan ▸ unrated_scan provider _

theorem update_does_unrated (provider : Provider) (uris : List String) :
    (update provider uris).Does fun ix ix' => ix.Unrated → ix'.Unrated := by
  refine update_does (fun _ h => h) (fun _ _ h => h) (fun ix h => ?_) fun indexed failed quarantined ix _ rs hrs => ?_
  · unfold Unrated replaceFiles
    rw [relationships_commitFiles, relationships_removeFiles]
    exact h
  · exact unrated_scan provider indexed rs (KeyMap.mem_values_filterKeys hrs)

theorem build_does_filed (provider : Provider) (resolver : Resolver) (scope : QueryScope) :
    (build provider resolver scope).Does fun ix ix' => ix.Filed → ix'.Filed := by
  refine build_does (fun _ h => h) (fun _ _ h => h.of_eq rfl rfl rfl) ?_
  exact fun analyses relationships failed ha _ ix _ => Filed.replace analyses ha relationships failed ix

theorem update_does_filed (provider : Provider) (uris : List String) :
    (update provider uris).Does fun ix ix' => ix.Filed → ix'.Filed := by
  refine update_does (fun _ h => h) (fun _ _ h => h.of_eq rfl rfl rfl) ?_ ?_
  · exact fun ix h => h.replaceFiles uris
  · exact fun _ _ _ ix h => h.of_eq rfl rfl rfl

theorem clear_does_filed : clear.Does fun ix ix' => ix.Filed → ix'.Filed :=
  Routine.does_atomic fun _ _ => filed_empty.of_eq rfl rfl rfl

theorem call_does_filed (call : IndexCall) : call.routine.Does fun ix ix' => ix.Filed → ix'.Filed := by
  cases call with
  | build provider resolver scope => exact Routine.does_bind (build_does_filed provider resolver scope) fun _ => trivial
  | update provider uris => exact Routine.does_bind (update_does_filed provider uris) fun _ => trivial
  | clear => exact Routine.does_bind clear_does_filed fun _ => trivial

/-- However calls are interleaved, symbols, files and names agree. -/
theorem history_filed (moves : List (System.Move IndexCall Unit)) : (history moves).state.Filed := by
  refine System.run_keeps (I := fun ix _ => Filed ix) filed_empty call_does_filed ?_ ?_ moves
  · exact fun _ _ h hsection => hsection h
  · exact fun _ _ _ h => h.of_eq rfl rfl rfl

end Index

end CodeAtlas
