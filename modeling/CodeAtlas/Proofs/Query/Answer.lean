import CodeAtlas.Proofs.Index.Contents
import CodeAtlas.Proofs.Query.Reach
import CodeAtlas.Proofs.Query.Stays

/-! What a query is answered with when nothing is remembered.

A query that may run is answered from the index, which is built first if it is empty
(`freshAnswer`). A search gives that answer, or one it remembers (`execute_cases`). -/
namespace CodeAtlas

/-- The index a query in a scope is answered from. -/
def Index.filledFor (provider : Provider) (resolver : Resolver) (scope : QueryScope) (ix : Index) :
    Except AtlasError Index :=
  if ix.isEmpty then Index.built provider resolver scope else .ok ix

section

variable {provider : Provider} {resolver : Resolver} {scope : QueryScope} {ix ix' : Index}

theorem Index.filledFor_of_not_isEmpty (h : ix.isEmpty = false) : ix.filledFor provider resolver scope = .ok ix := by
  unfold Index.filledFor
  rw [h]
  rfl

/-- An index with files is not filled again. -/
theorem Index.eq_of_filledFor (h : ix.filledFor provider resolver scope = .ok ix') (hfull : ix.isEmpty = false) :
    ix' = ix := by
  rw [filledFor_of_not_isEmpty hfull] at h
  exact (Except.ok.inj h).symm

theorem Index.built_of_filledFor (h : ix.filledFor provider resolver scope = .ok ix') (hempty : ix.isEmpty = true) :
    Index.built provider resolver scope = .ok ix' := by
  rw [Index.filledFor, hempty, if_pos rfl] at h
  exact h

/-- Indexes without files are filled alike. -/
theorem Index.filledFor_of_isEmpty (h : ix.isEmpty = true) (h' : ix'.isEmpty = true) :
    ix'.filledFor provider resolver scope = ix.filledFor provider resolver scope := by
  simp only [Index.filledFor, h, h', if_true]

end

/-- A result apart from where it came from, and how long that took. -/
def QueryResult.plain (r : QueryResult) : QueryResult := { r with fromCache := false, executionTimeMs := 0.0 }

namespace GraphQuery

variable {provider : Provider} {resolver : Resolver} {scope : QueryScope} {ix ix' : Index} {limit : Int} {q : GraphQuery}

/-- The answer from an index as it is. -/
def answerFrom (q : GraphQuery) (limit : Int) (scope : QueryScope) (ix : Index) : QueryResult :=
  let q := q.normalize limit
  let scope := q.effectiveScope scope
  q.answer (q.candidates ix scope) (ix.relationshipsInScope scope)

/-- The answer when nothing is remembered. -/
def freshAnswer (provider : Provider) (resolver : Resolver) (limit : Int) (ix : Index) (q : GraphQuery)
    (scope : QueryScope) : Except AtlasError QueryResult :=
  if !q.violations.isEmpty then .error (.invalidQuery q.violations)
  else (ix.filledFor provider resolver scope).map (q.answerFrom limit scope)

theorem freshAnswer_of_filledFor (h : ix'.filledFor provider resolver scope = ix.filledFor provider resolver scope) :
    q.freshAnswer provider resolver limit ix' scope = q.freshAnswer provider resolver limit ix scope := by
  rw [freshAnswer, freshAnswer, h]

theorem freshAnswer_of_valid (hv : q.violations = []) (h : ix.filledFor provider resolver scope = .ok ix') :
    q.freshAnswer provider resolver limit ix scope = .ok (q.answerFrom limit scope ix') := by
  rw [freshAnswer, hv, h]
  rfl

theorem effectiveScope_normalize (q : GraphQuery) (limit : Int) (scope : QueryScope) :
    (q.normalize limit).effectiveScope scope = q.effectiveScope scope := by
  unfold effectiveScope normalize
  cases q.filter <;> rfl

/-- What may be seen in a scope may be seen in the effective one. -/
theorem contains_effectiveScope {uri : String} (h : scope.contains uri = true) :
    (q.effectiveScope scope).contains uri = true := by
  unfold QueryScope.contains effectiveScope at *
  simp only [Bool.and_eq_true, Bool.or_eq_true] at h ⊢
  exact ⟨h.1, h.2.imp_left .inl⟩

theorem plain_answer (q : GraphQuery) (symbols : List Symbol) (relationships : List Relationship) :
    (q.answer symbols relationships).plain = q.answer symbols relationships := by
  unfold answer
  cases q.traverse <;> rfl

theorem answer_nil (q : GraphQuery) : q.answer [] [] = {} := by
  have hs : q.matching [] = [] := by
    unfold matching
    split <;> rfl
  have hr : q.matchingRelationships [] = [] := by
    unfold matchingRelationships
    split <;> rfl
  unfold answer
  rw [hs, hr]
  split
  · rename_i t _
    dsimp only
    rw [t.follow_nil]
    rfl
  · simp only [page, List.drop_nil, List.take_nil]
    rfl

theorem mem_answer {symbols : List Symbol} {relationships : List Relationship} {x : Relationship}
    (h : x ∈ (q.answer symbols relationships).relationships) : x ∈ relationships := by
  have hmatching : ∀ x ∈ q.matchingRelationships relationships, x ∈ relationships := by
    intro x hx
    unfold matchingRelationships at hx
    split at hx
    · cases hx
    · exact (List.mem_filter.mp hx).1
  unfold answer at h
  split at h
  · exact (Traversal.mem_follow h).elim (hmatching x) id
  · exact hmatching x (List.mem_of_mem_drop (List.mem_of_mem_take h))

/-- An index without files answers nothing. -/
theorem answerFrom_of_isEmpty (hc : ix.Covered) (h : ix.isEmpty = true) (q : GraphQuery) (limit : Int)
    (scope : QueryScope) : q.answerFrom limit scope ix = {} := by
  have hcandidates : ∀ (q : GraphQuery) scope, q.candidates ix scope = [] := by
    intro q scope
    unfold candidates
    split
    · exact hc.symbolsNamed_eq_nil h _ _
    · exact hc.symbolsInScope_eq_nil h _
  rw [answerFrom, hcandidates, hc.relationshipsInScope_eq_nil h, answer_nil]

theorem unrated_answerFrom (hc : ix.Covered) : ∀ x ∈ (q.answerFrom limit scope ix).relationships, x.IsUnrated :=
  fun x hx => hc.unrated_inScope _ x (mem_answer hx)

theorem filledFor_covered (hc : ix.Covered) {ix' : Index} (h : ix.filledFor provider resolver scope = .ok ix') :
    ix'.Covered := by
  unfold Index.filledFor at h
  split at h
  · exact Index.built_covered h
  · exact Except.ok.inj h ▸ hc

theorem freshAnswer_eq_ok {r : QueryResult} (h : q.freshAnswer provider resolver limit ix scope = .ok r) :
    ∃ ix', ix.filledFor provider resolver scope = .ok ix' ∧ q.answerFrom limit scope ix' = r := by
  unfold freshAnswer at h
  split at h
  · cases h
  · cases hf : ix.filledFor provider resolver scope with
    | error e => rw [hf] at h; cases h
    | ok ix' => rw [hf] at h; exact ⟨ix', rfl, Except.ok.inj h⟩

theorem unrated_freshAnswer (hc : ix.Covered) {r : QueryResult}
    (h : q.freshAnswer provider resolver limit ix scope = .ok r) : ∀ x ∈ r.relationships, x.IsUnrated := by
  obtain ⟨ix', hf, rfl⟩ := freshAnswer_eq_ok h
  exact unrated_answerFrom (filledFor_covered hc hf)

end GraphQuery

/-! ### Searches -/

namespace Search

/-- Delivered. -/
def tidy (s : Search) : Search := { s with signals := [] }

/-- Nothing changed but what was announced and what nobody reads. -/
structure Same (s s' : Search) : Prop where
  index : s'.index.contents = s.index.contents
  results : s'.results = s.results
  settings : s'.settings = s.settings

theorem runWith_onIndex {α : Type} (r : Routine Index α) (s : Search) :
    ((onIndex r).runWith tidy s).1 = (r.runWith Index.tidy s.index).1 ∧
      ((onIndex r).runWith tidy s).2.index = (r.runWith Index.tidy s.index).2 := by
  refine Routine.runWith_within ?_ r s
  exact fun _ _ => rfl

/-- A routine on the index leaves the rest of the search as it is. -/
theorem onIndex_frame {α : Type} (r : Routine Index α) (s : Search) :
    ((onIndex r).runWith tidy s).2.results = s.results ∧ ((onIndex r).runWith tidy s).2.settings = s.settings := by
  refine Routine.runWith_does tidy (G := fun s s' : Search => s'.results = s.results ∧ s'.settings = s.settings)
    ?_ (fun _ => ⟨rfl, rfl⟩) (fun h h' => ⟨h'.1.trans h.1, h'.2.trans h.2⟩) (fun _ => ⟨rfl, rfl⟩) s
  exact Routine.does_within r.does_any (fun _ _ _ => ⟨rfl, rfl⟩) fun _ => ⟨rfl, rfl⟩

/-- Answer from the index as it is, and remember that. -/
def answerNow (limit : Int) (q : GraphQuery) (scope : QueryScope) (key : String) :
    Routine Search (Except AtlasError QueryResult) := do
  let r ← read (q.normalize limit) scope
  Routine.change (remember key r)
  return .ok r

/-- Fill the index if it is empty, and answer from it. -/
def fillAndAnswer (provider : Provider) (resolver : Resolver) (limit : Int) (q : GraphQuery) (scope : QueryScope) :
    Routine Search (Except AtlasError QueryResult) := do
  if ← onIndex (Routine.look Index.isEmpty) then
    match ← onIndex (Index.build provider resolver scope) with
    | .error e => return .error e
    | .ok _ => pure ()
  answerNow limit q scope (q.cacheKey scope)

/-- Answer a query that is not remembered. -/
def answerAnew (provider : Provider) (resolver : Resolver) (q : GraphQuery) (scope : QueryScope) :
    Routine Search (Except AtlasError QueryResult) := do
  if !q.violations.isEmpty then return .error (.invalidQuery q.violations)
  fillAndAnswer provider resolver (← Routine.look fun s => s.settings.limit) q scope

/-- A query was answered from an index, which is kept, as the answer is. -/
structure Answered (q : GraphQuery) (limit : Int) (scope : QueryScope) (s : Search) (ix : Index)
    (answer : Except AtlasError QueryResult) (s' : Search) : Prop where
  answer : answer = .ok (q.answerFrom limit scope ix)
  index : s'.index.contents = ix
  results : s'.results = s.results.insert (q.cacheKey scope) (q.answerFrom limit scope ix)
  settings : s'.settings = s.settings

variable {provider : Provider} {resolver : Resolver} {limit : Int} {q : GraphQuery} {scope : QueryScope}
  {s s' s'' : Search}

theorem Same.trans (h : Same s s') (h' : Same s' s'') : Same s s'' :=
  ⟨h'.index.trans h.index, h'.results.trans h.results, h'.settings.trans h.settings⟩

theorem answerNow_answered (limit : Int) (q : GraphQuery) (scope : QueryScope) (s : Search) :
    let r := (answerNow limit q scope (q.cacheKey scope)).runWith tidy s
    Answered q limit scope s s.index.contents r.1 r.2 :=
  ⟨rfl, rfl, rfl, rfl⟩

/-- It does not matter what was announced before, or which index was there. -/
theorem Answered.of_same {ix : Index} {answer : Except AtlasError QueryResult}
    (hresults : s'.results = s.results) (hsettings : s'.settings = s.settings)
    (h : Answered q limit scope s' ix answer s'') : Answered q limit scope s ix answer s'' :=
  ⟨h.answer, h.index, by rw [h.results, hresults], h.settings.trans hsettings⟩

/-- A search builds its index, and nothing else of it changes. -/
theorem runWith_build (provider : Provider) (resolver : Resolver) (scope : QueryScope) (s : Search) :
    let b := (onIndex (Index.build provider resolver scope)).runWith tidy s
    (∃ e, Index.built provider resolver scope = .error e ∧ b.1 = .error e ∧ Same s b.2) ∨
    ∃ summary ix, Index.built provider resolver scope = .ok ix ∧ b.1 = .ok summary ∧ b.2.index.contents = ix ∧
      b.2.results = s.results ∧ b.2.settings = s.settings := by
  intro b
  obtain ⟨hanswer, hindex⟩ := runWith_onIndex (Index.build provider resolver scope) s
  obtain ⟨hresults, hsettings⟩ := onIndex_frame (Index.build provider resolver scope) s
  obtain ⟨e, he, hfail, hkept⟩ | ⟨summary, ix, hix, hok, hcontents⟩ := Index.build_cases provider resolver scope s.index
  · have hsame : Same s b.2 := ⟨congrArg Index.contents (hindex.trans hkept), hresults, hsettings⟩
    exact .inl ⟨e, he, hanswer.trans hfail, hsame⟩
  · have hbuilt : b.2.index.contents = ix := (congrArg Index.contents hindex).trans hcontents
    exact .inr ⟨summary, ix, hix, hanswer.trans hok, hbuilt, hresults, hsettings⟩

/-- The index is looked at and built, whatever else there is to a search. -/
theorem fillAndAnswer_cases (provider : Provider) (resolver : Resolver) (limit : Int) (q : GraphQuery)
    (scope : QueryScope) (s : Search) :
    let r := (fillAndAnswer provider resolver limit q scope).runWith tidy s
    (∃ e, s.index.contents.filledFor provider resolver scope = .error e ∧ r.1 = .error e ∧ Same s r.2) ∨
    ∃ ix, s.index.contents.filledFor provider resolver scope = .ok ix ∧ Answered q limit scope s ix r.1 r.2 := by
  intro r
  have hr : r = (fillAndAnswer provider resolver limit q scope).runWith tidy s := rfl
  have hempty : s.index.contents.isEmpty = s.index.isEmpty := rfl
  rw [fillAndAnswer, Routine.runWith_bind] at hr
  have hlook : ((onIndex (Routine.look Index.isEmpty)).runWith tidy s).1 = s.index.isEmpty := rfl
  have hsame : Same s ((onIndex (Routine.look Index.isEmpty)).runWith tidy s).2 := ⟨rfl, rfl, rfl⟩
  rw [hlook] at hr
  generalize ((onIndex (Routine.look Index.isEmpty)).runWith tidy s).2 = s' at hr hsame
  rw [Index.filledFor, hempty]
  cases hix : s.index.isEmpty with
  | false =>
    rw [hix, if_neg (by decide)] at hr
    right
    refine ⟨s.index.contents, rfl, ?_⟩
    rw [hr, ← hsame.index]
    exact (answerNow_answered limit q scope s').of_same hsame.results hsame.settings
  | true =>
    rw [hix, if_pos rfl, Routine.runWith_bind] at hr
    have hbuild := runWith_build provider resolver scope s'
    generalize (onIndex (Index.build provider resolver scope)).runWith tidy s' = b at hr hbuild
    obtain ⟨outcome, s''⟩ := b
    dsimp only at hr hbuild
    rw [if_pos rfl]
    obtain ⟨e, he, rfl, hkeeps⟩ | ⟨summary, ix, hmade, rfl, hcontents, hresults, hsettings⟩ := hbuild
    · refine .inl ⟨e, he, by rw [hr]; rfl, ?_⟩
      rw [hr]
      exact hsame.trans hkeeps
    · refine .inr ⟨ix, hmade, ?_⟩
      rw [hr, ← hcontents]
      exact (answerNow_answered limit q scope s'').of_same (hresults.trans hsame.results)
        (hsettings.trans hsame.settings)

/-- A query is answered with what is remembered, or fails as it does with nothing
remembered, or is answered from the index after that was filled if need be. -/
theorem execute_cases (provider : Provider) (resolver : Resolver) (q : GraphQuery) (scope : QueryScope) (s : Search) :
    let r := (execute provider resolver q scope).runWith tidy s
    (∃ found, s.results.get? (q.cacheKey scope) = some found ∧
      r.1 = .ok { found with fromCache := true, executionTimeMs := 0.0 } ∧ Same s r.2) ∨
    (∃ e, q.freshAnswer provider resolver s.settings.limit s.index.contents scope = .error e ∧ r.1 = .error e ∧
      Same s r.2) ∨
    ∃ ix, q.violations = [] ∧ s.index.contents.filledFor provider resolver scope = .ok ix ∧
      Answered q s.settings.limit scope s ix r.1 r.2 := by
  intro r
  have hr : r = (execute provider resolver q scope).runWith tidy s := rfl
  rw [execute, Routine.runWith_bind, Routine.runWith_atomic, recallResult] at hr
  cases hget : s.results.get? (q.cacheKey scope) with
  | some found =>
    rw [hget] at hr
    exact .inl ⟨found, rfl, by rw [hr]; rfl, by rw [hr]; exact ⟨rfl, rfl, rfl⟩⟩
  | none =>
    rw [hget] at hr
    have hr : r = (answerAnew provider resolver q scope).runWith tidy s.tidy := hr
    right
    cases hv : q.violations.isEmpty with
    | false =>
      simp only [answerAnew, hv] at hr
      refine .inl ⟨.invalidQuery q.violations, by simp [GraphQuery.freshAnswer, hv], ?_⟩
      rw [hr]
      exact ⟨rfl, rfl, rfl, rfl⟩
    | true =>
      simp only [answerAnew, hv] at hr
      have hr : r = (fillAndAnswer provider resolver s.settings.limit q scope).runWith tidy s.tidy.tidy := hr
      rw [hr]
      obtain ⟨e, he, herror, hsame⟩ | ⟨ix, hfill, hanswered⟩ :=
        fillAndAnswer_cases provider resolver s.settings.limit q scope s.tidy.tidy
      · have hfill : s.index.contents.filledFor provider resolver scope = .error e := he
        refine .inl ⟨e, ?_, herror, hsame.index, hsame.results, hsame.settings⟩
        simp [GraphQuery.freshAnswer, hv, hfill, Except.map]
      · have hresults : s.tidy.tidy.results = s.results := rfl
        exact .inr ⟨ix, List.isEmpty_iff.mp hv, hfill, hanswered.of_same hresults rfl⟩

/-! ### From beginning to end -/

theorem onIndex_blind {α : Type} (r : Routine Index α) : (onIndex r).Blind tidy :=
  Routine.blind_within (fun _ => rfl) fun _ _ => rfl

/-- What was announced makes no difference. -/
theorem execute_blind (provider : Provider) (resolver : Resolver) (q : GraphQuery) (scope : QueryScope) :
    (execute provider resolver q scope).Blind tidy := by
  refine Routine.blind_bind (Routine.blind_atomic fun s => ?_) fun found => ?_
  · have hresults : s.tidy.results = s.results := rfl
    unfold recallResult
    rw [hresults]
    cases s.results.get? (q.cacheKey scope) <;> exact ⟨rfl, rfl⟩
  cases found with
  | some r => trivial
  | none =>
    dsimp only
    split
    · trivial
    refine Routine.blind_bind (Routine.blind_atomic fun _ => ⟨rfl, rfl⟩) fun limit => ?_
    have hanswer : (answerNow limit q scope (q.cacheKey scope)).Blind tidy := by
      refine Routine.blind_bind ?_ fun r => Routine.blind_bind (Routine.blind_atomic fun _ => ⟨rfl, rfl⟩) fun _ => trivial
      exact Routine.blind_bind (onIndex_blind _) fun _ => Routine.blind_bind (onIndex_blind _) fun _ => trivial
    refine Routine.blind_bind (onIndex_blind _) fun empty => ?_
    cases empty with
    | false => exact hanswer
    | true =>
      refine Routine.blind_bind (onIndex_blind _) fun outcome => ?_
      cases outcome with
      | error e => trivial
      | ok summary => exact hanswer

/-- The cases of a query, from beginning to end. -/
theorem execute_run_cases (provider : Provider) (resolver : Resolver) (q : GraphQuery) (scope : QueryScope) (s : Search) :
    let r := (execute provider resolver q scope).run s
    (∃ found, s.results.get? (q.cacheKey scope) = some found ∧
      r.1 = .ok { found with fromCache := true, executionTimeMs := 0.0 } ∧ Same s r.2) ∨
    (∃ e, q.freshAnswer provider resolver s.settings.limit s.index.contents scope = .error e ∧ r.1 = .error e ∧
      Same s r.2) ∨
    ∃ ix, q.violations = [] ∧ s.index.contents.filledFor provider resolver scope = .ok ix ∧
      Answered q s.settings.limit scope s ix r.1 r.2 := by
  intro r
  obtain ⟨hanswer, hstate⟩ := (execute_blind provider resolver q scope).run s
  have hsame : Same s.tidy r.2.tidy → Same s r.2 := fun h => ⟨h.index, h.results, h.settings⟩
  obtain ⟨found, hfound, h, hkept⟩ | ⟨e, he, h, hkept⟩ | ⟨ix, hv, hfill, h⟩ :=
    execute_cases provider resolver q scope s.tidy
  · exact .inl ⟨found, hfound, hanswer.trans h, hsame (hstate ▸ hkept)⟩
  · exact .inr (.inl ⟨e, he, hanswer.trans h, hsame (hstate ▸ hkept)⟩)
  · rw [← hanswer, ← hstate] at h
    exact .inr (.inr ⟨ix, hv, hfill, h.answer, h.index, h.results, h.settings⟩)

/-- A build that fails leaves the index as it was, one that succeeds gives the one of its
scope, and neither changes anything else. -/
theorem run_onIndex_build_cases (provider : Provider) (resolver : Resolver) (scope : QueryScope) (s : Search) :
    let s' := ((onIndex (Index.build provider resolver scope)).run s).2
    ((∃ e, Index.built provider resolver scope = .error e ∧ s'.index.contents = s.index.contents) ∨
        Index.built provider resolver scope = .ok s'.index.contents) ∧
      s'.results = s.results ∧ s'.settings = s.settings := by
  intro s'
  obtain ⟨-, hstate⟩ := (onIndex_blind (Index.build provider resolver scope)).run s
  obtain ⟨hresults, hsettings⟩ := onIndex_frame (Index.build provider resolver scope) s.tidy
  have hindex := (runWith_onIndex (Index.build provider resolver scope) s.tidy).2
  rw [← hstate] at hresults hsettings hindex
  refine ⟨?_, hresults, hsettings⟩
  have hcontents : s'.index.contents = s'.tidy.index.contents := rfl
  rw [hcontents, hindex]
  obtain ⟨e, he, -, hkept⟩ | ⟨summary, made, hmade, -, hmake⟩ :=
    Index.build_cases provider resolver scope s.tidy.index
  · exact .inl ⟨e, he, congrArg Index.contents hkept⟩
  · exact .inr (hmade.trans (congrArg Except.ok hmake.symm))

/-- To build the index changes nothing else. -/
theorem run_onIndex_build {made : Index} (h : Index.built provider resolver scope = .ok made) (s : Search) :
    let s' := ((onIndex (Index.build provider resolver scope)).run s).2
    s'.index.contents = made ∧ s'.results = s.results ∧ s'.settings = s.settings := by
  obtain ⟨⟨e, he, -⟩ | hbuilt, hkept⟩ := run_onIndex_build_cases provider resolver scope s
  · rw [h] at he
    cases he
  · exact ⟨Except.ok.inj (hbuilt.symm.trans h), hkept⟩

end Search

end CodeAtlas
