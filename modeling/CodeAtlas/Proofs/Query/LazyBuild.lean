import CodeAtlas.Proofs.Query.History

/-! What a query is answered with on an index that it has to fill itself.

The index is filled over the scope that the query is asked in, whereas the query runs in
its effective scope, which has the tests as well if its filter asks for them. Where the two
scopes are the same, to fill the index beforehand makes no difference. Where they are not,
the tests are never indexed, and the query is answered as if it had not asked for them
(`lazy_build_leaves_tests_out`). -/
namespace CodeAtlas

/-! ### Queries that do not ask for tests -/

namespace GraphQuery

variable {provider : Provider} {resolver : Resolver} {limit : Int} {ix : Index} {q : GraphQuery} {scope : QueryScope}

/-- The query, with nothing said about tests. -/
def withoutTests (q : GraphQuery) : GraphQuery :=
  { q with filter := q.filter.map fun f => { f with includeTests := none } }

theorem violations_withoutTests (q : GraphQuery) : q.withoutTests.violations = q.violations := rfl

theorem effectiveScope_withoutTests (q : GraphQuery) (scope : QueryScope) :
    q.withoutTests.effectiveScope scope = scope := by
  unfold effectiveScope withoutTests
  cases q.filter <;> simp

/-- What is said about tests matters for the scope only. -/
theorem answer_withoutTests (q : GraphQuery) (limit : Int) (symbols : List Symbol) (relationships : List Relationship) :
    (q.withoutTests.normalize limit).answer symbols relationships = (q.normalize limit).answer symbols relationships := by
  have hmatching : (q.withoutTests.normalize limit).matching symbols = (q.normalize limit).matching symbols := by
    unfold matching withoutTests normalize
    cases q.filter <;> rfl
  unfold answer
  rw [hmatching]
  rfl

end GraphQuery

namespace Index

variable {provider : Provider} {resolver : Resolver} {scope wide : QueryScope} {ix : Index}

/-- An index has files of the scope only that it was built over, so that it tells no more
in a scope that lets in more. -/
theorem built_inScope (h : built provider resolver scope = .ok ix)
    (hwide : ∀ uri, scope.contains uri = true → wide.contains uri = true) :
    ix.symbolsInScope wide = ix.symbolsInScope scope ∧ ix.relationshipsInScope wide = ix.relationshipsInScope scope := by
  obtain ⟨listed, -, hshows⟩ := built_shows h
  have hsymbols : ∀ uri ∈ ix.symbols.keys, scope.contains uri = true := by
    intro uri huri
    rw [KeyMap.mem_keys_iff, hshows.symbols] at huri
    by_contra hout
    simp [hout] at huri
  have hrelationships : ∀ uri ∈ ix.relationships.keys, scope.contains uri = true := by
    intro uri huri
    rw [KeyMap.mem_keys_iff, hshows.relationships, Option.isSome_map, ← hshows.symbols, ← KeyMap.mem_keys_iff] at huri
    exact hsymbols uri huri
  refine ⟨KeyMap.collect_eq_of_keys fun uri huri => ?_, KeyMap.collect_eq_of_keys fun uri huri => ?_⟩
  · rw [hwide uri (hsymbols uri huri), hsymbols uri huri]
  · rw [hwide uri (hrelationships uri huri), hrelationships uri huri]

end Index

namespace GraphQuery

variable {provider : Provider} {resolver : Resolver} {limit : Int} {ix : Index} {q : GraphQuery} {scope : QueryScope}

/-- It makes no difference to ask an index for tests that was built over a scope without them. -/
theorem answerFrom_withoutTests (h : Index.built provider resolver scope = .ok ix) :
    q.answerFrom limit scope ix = q.withoutTests.answerFrom limit scope ix := by
  obtain ⟨listed, -, hshows⟩ := Index.built_shows h
  obtain ⟨hsymbols, hrelationships⟩ := Index.built_inScope h fun _ => contains_effectiveScope (q := q)
  have hcandidates : (q.normalize limit).candidates ix (q.effectiveScope scope) =
      (q.withoutTests.normalize limit).candidates ix scope := by
    simp only [candidates, hshows.filed.symbolsNamed, hsymbols]
    rfl
  simp only [answerFrom, effectiveScope_normalize]
  rw [effectiveScope_withoutTests, answer_withoutTests, hcandidates, hrelationships]

/-- Nor does it for an index that is built over such a scope first. -/
theorem freshAnswer_withoutTests (hempty : ix.isEmpty = true) :
    q.freshAnswer provider resolver limit ix scope = q.withoutTests.freshAnswer provider resolver limit ix scope := by
  unfold freshAnswer
  rw [violations_withoutTests, Index.filledFor, hempty, if_pos rfl]
  cases hbuilt : Index.built provider resolver scope with
  | error e => rfl
  | ok own => rw [Except.map, Except.map, answerFrom_withoutTests hbuilt]

end GraphQuery

/-! ### Filled beforehand, or by the query -/

namespace Search

variable {provider : Provider} {resolver : Resolver} {q : GraphQuery} {scope : QueryScope} {s : Search}

theorem answerOf_of_remembered {found : QueryResult} (h : s.results.get? (q.cacheKey scope) = some found) :
    answerOf provider resolver q scope s = .ok found.plain := by
  obtain ⟨hanswer, -⟩ := (execute_blind provider resolver q scope).run s
  have htidy : s.tidy.results.get? (q.cacheKey scope) = some found := h
  rw [answerOf, hanswer, execute, Routine.runWith_bind, Routine.runWith_atomic, recallResult, htidy]
  rfl

/-- The answer depends on what is remembered under the key, and on what the index tells. -/
theorem answerOf_congr {s' : Search} (hresults : s'.results = s.results)
    (hfresh : q.freshAnswer provider resolver s'.settings.limit s'.index.contents scope =
      q.freshAnswer provider resolver s.settings.limit s.index.contents scope) :
    answerOf provider resolver q scope s' = answerOf provider resolver q scope s := by
  obtain ⟨found, hfound, h⟩ | h := answerOf_cases provider resolver q scope s
  · rw [h]
    exact answerOf_of_remembered (hresults ▸ hfound)
  obtain ⟨found, hfound, h'⟩ | h' := answerOf_cases provider resolver q scope s'
  · rw [h']
    exact (answerOf_of_remembered (hresults ▸ hfound)).symm
  · rw [h, h', hfresh]

/-- An index that is filled over the scope it is asked in tells the same before and after. -/
theorem freshAnswer_prepared (limit : Int) (hempty : s.index.isEmpty = true) :
    q.freshAnswer provider resolver limit ((onIndex (Index.build provider resolver scope)).run s).2.index.contents scope =
      q.freshAnswer provider resolver limit s.index.contents scope := by
  obtain ⟨⟨e, -, hkept⟩ | hbuilt, -⟩ := run_onIndex_build_cases provider resolver scope s
  · rw [hkept]
  generalize ((onIndex (Index.build provider resolver scope)).run s).2.index.contents = made at hbuilt
  have hcontents : s.index.contents.isEmpty = true := hempty
  have hfill : s.index.contents.filledFor provider resolver scope = .ok made := by
    rw [Index.filledFor, if_pos hcontents, hbuilt]
  refine GraphQuery.freshAnswer_of_filledFor ?_
  cases hmade : made.isEmpty with
  | true => rw [Index.filledFor, if_pos hmade, hbuilt, hfill]
  | false => rw [Index.filledFor_of_not_isEmpty hmade, hfill]

/-- A scope whose files are listed can be built. -/
theorem ListsSame.exists_built {visible scope scope' : QueryScope} (h : ListsSame resolver visible scope scope')
    (provider : Provider) : ∃ made, Index.built provider resolver scope = .ok made := by
  obtain ⟨listed, -, hlisted, -⟩ := h
  rw [Index.built, hlisted]
  exact ⟨_, rfl⟩

/-- A query on an empty index, against the same query on one that was built beforehand over
its effective scope. If that is the scope it is asked in, the answers are the same. If not, a
search that remembers nothing answers without the tests, provided that the resolver lists
the other files alike for both scopes. -/
theorem lazy_build_leaves_tests_out (provider : Provider) (resolver : Resolver) (q : GraphQuery) (scope : QueryScope)
    {s : Search} (hempty : s.index.isEmpty = true) :
    let prebuilt := ((onIndex (Index.build provider resolver (q.effectiveScope scope))).run s).2
    let unprepared := answerOf provider resolver q scope s
    (q.effectiveScope scope = scope → unprepared = answerOf provider resolver q scope prebuilt) ∧
      (s.results.entries = [] → ListsSame resolver scope (q.effectiveScope scope) scope →
        unprepared = answerOf provider resolver q.withoutTests scope prebuilt) := by
  intro prebuilt unprepared
  have hcontents : s.index.contents.isEmpty = true := hempty
  obtain ⟨-, hresults, hsettings⟩ := run_onIndex_build_cases provider resolver (q.effectiveScope scope) s
  refine ⟨fun hscope => (answerOf_congr hresults ?_).symm, fun hnew hsame => ?_⟩
  · rw [hsettings, hscope]
    exact freshAnswer_prepared _ hempty
  have hunprepared : unprepared = q.withoutTests.freshAnswer provider resolver s.settings.limit s.index.contents scope := by
    rw [← GraphQuery.freshAnswer_withoutTests hcontents]
    exact answerOf_of_forgotten hnew q scope
  have hprepared : answerOf provider resolver q.withoutTests scope prebuilt = _ :=
    answerOf_of_forgotten ((congrArg ResultCache.entries hresults).trans hnew) q.withoutTests scope
  obtain ⟨made, hbuilt⟩ := hsame.exists_built provider
  have hmade : prebuilt.index.contents = made := (run_onIndex_build hbuilt s).1
  rw [hunprepared, hprepared, hsettings, hmade]
  cases hfull : made.isEmpty with
  | true => exact GraphQuery.freshAnswer_of_filledFor (Index.filledFor_of_isEmpty hfull hcontents)
  | false =>
    have hseen : ListsSame resolver (q.withoutTests.effectiveScope scope) (q.effectiveScope scope) scope := by
      rw [GraphQuery.effectiveScope_withoutTests]
      exact hsame
    rw [freshAnswer_of_listsSame hbuilt hfull hseen]
    exact GraphQuery.freshAnswer_of_filledFor (Index.filledFor_of_isEmpty rfl hcontents)

/-- A function in a source file, and one in a test. -/
def sourceAndTest : MemoryProvider :=
  let function (name : String) : RawSymbol := { name, kind := .name "function", range := default }
  (({} : MemoryProvider).addFile "file:///repo/src/a.rs" [function "connect"] "").addFile
    "file:///repo/tests/a.rs" [function "checks"] ""

/-- All symbols, those of the tests as well. -/
def everythingWithTests : GraphQuery := { GraphQuery.ofPatterns ["*"] with filter := some { includeTests := some true } }

/-- The names of the symbols in an answer. -/
def namesIn (answer : Except AtlasError QueryResult) : Option (List String) :=
  answer.toOption.map (·.symbols.map Symbol.name)

/-- All symbols are asked for with the tests, on an empty index and on one that was built
over the scope that the query runs in. -/
theorem unprepared_index_hides_tests :
    let provider := sourceAndTest.provider
    let resolver := sourceAndTest.resolver
    let answer := answerOf provider resolver everythingWithTests .workspace
    let wide := everythingWithTests.effectiveScope .workspace
    let prebuilt := ((onIndex (Index.build provider resolver wide)).run (ofSettings {})).2
    everythingWithTests.violations = [] ∧ wide = { QueryScope.workspace with includeTests := true } ∧
      namesIn (answer (ofSettings {})) = some ["connect"] ∧ namesIn (answer prebuilt) = some ["connect", "checks"] := by
  decide +kernel

/-- In a scope with tests nothing is hidden, and in one without them what is left is what the
query without tests finds on the index that was built beforehand. -/
theorem unprepared_index_tells_the_rest :
    let provider := sourceAndTest.provider
    let resolver := sourceAndTest.resolver
    let q := everythingWithTests
    let withTests : QueryScope := { includeTests := true }
    let prebuilt := ((onIndex (Index.build provider resolver withTests)).run (ofSettings {})).2
    (ofSettings {}).index.isEmpty = true ∧ (ofSettings {}).results.entries = [] ∧
      q.effectiveScope withTests = withTests ∧
      answerOf provider resolver q withTests (ofSettings {}) = answerOf provider resolver q withTests prebuilt ∧
      ListsSame resolver .workspace (q.effectiveScope .workspace) .workspace ∧
      answerOf provider resolver q .workspace (ofSettings {}) =
        answerOf provider resolver q.withoutTests .workspace prebuilt := by
  intro provider resolver q withTests prebuilt
  have hsame : ListsSame resolver .workspace (q.effectiveScope .workspace) .workspace :=
    listsSame_resolver sourceAndTest fun _ huri => ⟨GraphQuery.contains_effectiveScope huri, huri⟩
  exact ⟨rfl, rfl, rfl, (lazy_build_leaves_tests_out provider resolver q withTests rfl).1 rfl, hsame,
    (lazy_build_leaves_tests_out provider resolver q .workspace rfl).2 rfl hsame⟩

end Search

end CodeAtlas
