import CodeAtlas.Proofs.Engine.Requests

/-! The index of an engine stays in order.

Requests of an engine change its index only by the sections of builds, updates and clears,
which keep symbols, files and names together (`Files`). So these agree at every moment,
whatever requests are under way (`run_filed`). -/
namespace CodeAtlas

variable {α : Type}

namespace Search

/-- Symbols, files and names go on agreeing, and the settings stay. -/
structure Files (s s' : Search) : Prop where
  filed : s.index.Filed → s'.index.Filed
  settings : s'.settings = s.settings

theorem Files.refl (s : Search) : Files s s := ⟨fun h => h, rfl⟩

theorem onIndex_files {r : Routine Index α} (h : r.Does fun ix ix' => ix.Filed → ix'.Filed) :
    (onIndex r).Does Files :=
  Routine.does_within h (fun _ _ hix => ⟨fun hf => (hix hf).of_eq rfl rfl rfl, rfl⟩) Files.refl

theorem look_files (f : Index → α) : (onIndex (Routine.look f)).Does Files :=
  onIndex_files (Routine.does_atomic fun _ h => h)

theorem answerNow_files (limit : Int) (q : GraphQuery) (scope : QueryScope) (key : String) :
    (answerNow limit q scope key).Does Files := by
  have hread : (read (q.normalize limit) scope).Does Files :=
    Routine.does_bind (look_files _) fun _ => Routine.does_bind (look_files _) fun _ => trivial
  refine Routine.does_bind hread fun r => ?_
  exact Routine.does_bind (Routine.does_atomic fun _ => ⟨fun h => h, rfl⟩) fun _ => trivial

theorem execute_files (provider : Provider) (resolver : Resolver) (q : GraphQuery) (scope : QueryScope) :
    (execute provider resolver q scope).Does Files := by
  refine Routine.does_bind (Routine.does_atomic fun s => ?_) fun found => ?_
  · unfold recallResult
    split <;> exact ⟨fun h => h, rfl⟩
  cases found with
  | some r => trivial
  | none =>
    dsimp only
    split
    · trivial
    refine Routine.does_bind (Routine.does_atomic Files.refl) fun limit => ?_
    refine Routine.does_bind (look_files _) fun empty => ?_
    cases empty with
    | false => exact answerNow_files limit q scope _
    | true =>
      refine Routine.does_bind (onIndex_files (Index.build_does_filed provider resolver scope)) fun outcome => ?_
      cases outcome with
      | error e => trivial
      | ok summary => exact answerNow_files limit q scope _

end Search

namespace Engine

/-- Symbols, files and names of the index go on agreeing, and the settings stay. -/
def Files (e e' : Engine) : Prop := e.search.Files e'.search

theorem Files.refl (e : Engine) : Files e e := Search.Files.refl e.search

theorem Files.trans {e e' e'' : Engine} (h : Files e e') (h' : Files e' e'') : Files e e'' :=
  ⟨fun hf => h'.filed (h.filed hf), h'.settings.trans h.settings⟩

/-! ### Parts -/

theorem onCache_files (r : Routine Cache α) : (onCache r).Does Files :=
  Routine.does_within r.does_any (fun _ e _ => .refl e) Files.refl

theorem onSearch_files {r : Routine Search α} (h : r.Does Search.Files) : (onSearch r).Does Files :=
  Routine.does_within h (fun _ _ hs => ⟨hs.filed, hs.settings⟩) Files.refl

theorem readIndex_files (f : Index → α) : (onIndex (Routine.look f)).Does Files := onSearch_files (Search.look_files f)

theorem record_files (f : Metrics → Metrics) : (record f).Does Files := Routine.does_atomic Files.refl

theorem scopeOr_files (scope : Option QueryScope) : (scopeOr scope).Does Files := by
  cases scope with
  | none => exact Routine.does_atomic Files.refl
  | some s => trivial

theorem clearResults_files : (onSearch Search.clearResults).Does Files :=
  onSearch_files (Routine.does_atomic fun _ => ⟨fun h => h, rfl⟩)

theorem clearStores_files (places : List CacheStore) : (clearStores places).Does Files := by
  induction places with
  | nil => trivial
  | cons place rest ih => exact Routine.does_bind (onCache_files _) fun _ => ih

theorem dropIndexDerived_files : dropIndexDerived.Does Files :=
  Routine.does_bind clearResults_files fun _ => clearStores_files indexDerivedStores

/-! ### Requests -/

theorem executeQuery_files (c : Collaborators) (q : GraphQuery) (scope : Option QueryScope) :
    (executeQuery c q scope).Does Files := by
  refine Routine.does_bind (scopeOr_files scope) fun s => Routine.does_bind (onCache_files _) fun found => ?_
  cases found with
  | some found =>
    exact Routine.does_bind (Routine.does_atomic Files.refl) fun _ => Routine.does_bind (record_files _) fun _ => trivial
  | none =>
    refine Routine.does_bind (onSearch_files (Search.execute_files c.provider c.resolver q s)) fun answer => ?_
    cases answer with
    | error err => trivial
    | ok result =>
      exact Routine.does_bind (onCache_files _) fun _ => Routine.does_bind (record_files _) fun _ => trivial

theorem getGraphData_files (c : Collaborators) (q : Option GraphQuery) (scope : Option QueryScope) :
    (getGraphData c q scope).Does Files := by
  refine Routine.does_bind (Routine.does_atomic fun _ => ⟨fun h => h, rfl⟩) fun ticket => ?_
  refine Routine.does_bind (scopeOr_files scope) fun s => Routine.does_bind (onCache_files _) fun found => ?_
  have hcurrent : (isCurrent ticket).Does Files := Routine.does_atomic Files.refl
  refine Routine.does_bind hcurrent fun current => ?_
  split
  · trivial
  cases found with
  | some data => trivial
  | none =>
    refine Routine.does_bind (executeQuery_files c _ (some s)) fun answer => ?_
    cases answer with
    | error err => trivial
    | ok result =>
      refine Routine.does_bind hcurrent fun current => ?_
      split
      · trivial
      refine Routine.does_bind (readIndex_files _) fun relationships => Routine.does_bind hcurrent fun current => ?_
      split
      · trivial
      exact Routine.does_bind (onCache_files _) fun _ => trivial

theorem cachedRead_files [Wire α] (place : CacheStore) (key : String) (read : Index → α)
    (dependencies : α → List String) : (cachedRead place key read dependencies).Does Files := by
  refine Routine.does_bind (onCache_files _) fun found => ?_
  cases found with
  | some found => trivial
  | none => exact Routine.does_bind (readIndex_files read) fun _ => Routine.does_bind (onCache_files _) fun _ => trivial

theorem call_files (c : Collaborators) (call : EngineCall) : (call.routine c).Does Files := by
  cases call with
  | read r =>
    cases r with
    | query q scope => exact Routine.does_bind (executeQuery_files c q scope) fun _ => trivial
    | graph q scope => exact Routine.does_bind (getGraphData_files c q scope) fun _ => trivial
    | symbols uri => exact Routine.does_bind (cachedRead_files ..) fun _ => trivial
    | relationships uri => exact Routine.does_bind (cachedRead_files ..) fun _ => trivial
  | buildIndex scope =>
    refine Routine.does_bind (Routine.does_bind (scopeOr_files scope) fun s => ?_) fun _ => trivial
    refine Routine.does_bind (onSearch_files (Search.onIndex_files (Index.build_does_filed ..))) fun built => ?_
    cases built with
    | error err => trivial
    | ok summary =>
      exact Routine.does_bind dropIndexDerived_files fun _ => Routine.does_bind (record_files _) fun _ => trivial
  | updateIndex uris =>
    refine Routine.does_bind (Routine.does_bind (onSearch_files (Search.onIndex_files (Index.update_does_filed ..)))
      fun summary => ?_) fun _ => trivial
    exact Routine.does_bind dropIndexDerived_files fun _ => trivial
  | clearIndex =>
    have hclear : Search.clearIndex.Does Search.Files :=
      Routine.does_bind (Search.onIndex_files Index.clear_does_filed) fun _ =>
        Routine.does_atomic fun _ => ⟨fun h => h, rfl⟩
    refine Routine.does_bind (Routine.does_bind (onSearch_files hclear) fun _ => ?_) fun _ => trivial
    exact dropIndexDerived_files
  | clearCache place =>
    refine Routine.does_bind (Routine.does_bind (onCache_files _) fun _ => ?_) fun _ => trivial
    split
    · exact clearResults_files
    · exact clearResults_files
    · trivial
  | optimizeCache => exact Routine.does_bind (onCache_files _) fun _ => trivial

theorem elapse_files (ms : Nat) (e : Engine) : Files e (e.elapse ms) := by
  have hkeeps := elapse_keeps ms e
  refine ⟨fun hf => ?_, hkeeps.settings⟩
  have hcontents : e.search.index.contents.Filed := hf.of_eq rfl rfl rfl
  rw [← hkeeps.index] at hcontents
  exact hcontents.of_eq rfl rfl rfl

theorem outside_files (event : EngineEvent) (e : Engine) : Files e (outside event e) := by
  cases event with
  | elapse ms => exact elapse_files ms e
  | cache event => exact .refl e

/-! ### Every moment -/

/-- However requests are interleaved, symbols, files and names of the index agree, and
searches are set as they were configured. -/
theorem run_filed (config : AtlasConfig) (clock : Clock) (moves : List (System.Move EngineRequest EngineEvent)) :
    let e := (system.run (.ofConfig config clock) moves).state
    e.search.index.Filed ∧ e.search.settings = config.query := by
  have hdoes : ∀ request, (system.routine request).Does Files := fun request =>
    call_files request.collaborators request.call
  refine System.run_keeps (I := fun (e : Engine) _ => e.search.index.Filed ∧ e.search.settings = config.query)
    ⟨Index.filed_empty, rfl⟩ hdoes ?_ ?_ moves
  · exact fun _ _ h hsection => ⟨hsection.filed h.1, hsection.settings.trans h.2⟩
  · exact fun _ _ event h => ⟨(outside_files event _).filed h.1, (outside_files event _).settings.trans h.2⟩

end Engine

end CodeAtlas
