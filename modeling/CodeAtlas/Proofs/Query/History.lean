import CodeAtlas.Index.MemoryProvider
import CodeAtlas.Proofs.Index.Agreement
import CodeAtlas.Proofs.Query.Answer
import Mathlib.Data.List.TakeWhile

/-! What earlier queries change for a later one.

The first query that finds files for an empty index fills it, over its own scope. From
then on all queries are answered from that index, whatever their scopes
(`Recalls.execute`). Results are remembered as well, but those only tell what would be
told anyway, or what was told before the index was filled (`Recalls.answer`). So an
answer depends on the history only through the scope of the query that filled the index
(`answer_after_queries`), and not at all if that scope lists the same files among those
that the later query may see. -/
namespace CodeAtlas

/-! ### What a query sees -/

namespace GraphQuery

variable {provider : Provider} {resolver : Resolver} {limit : Int} {ix ix' : Index} {q : GraphQuery} {scope : QueryScope}

/-- A query is answered alike from indexes that show the same symbols for the files it may see. -/
theorem answerFrom_of_shows {symbols? symbols?' : String → Option (List Symbol)} (h : ix.Shows provider symbols?)
    (h' : ix'.Shows provider symbols?')
    (hsame : ∀ uri, (q.effectiveScope scope).contains uri = true → symbols? uri = symbols?' uri) :
    q.answerFrom limit scope ix = q.answerFrom limit scope ix' := by
  have hsymbols : ix.symbolsInScope (q.effectiveScope scope) = ix'.symbolsInScope (q.effectiveScope scope) :=
    h.filed.sorted.collect_congr h'.filed.sorted fun uri huri => by rw [h.symbols, h'.symbols, hsame uri huri]
  have hrelationships :
      ix.relationshipsInScope (q.effectiveScope scope) = ix'.relationshipsInScope (q.effectiveScope scope) :=
    h.sorted.collect_congr h'.sorted fun uri huri => by rw [h.relationships, h'.relationships, hsame uri huri]
  unfold answerFrom
  simp only [effectiveScope_normalize, candidates, h.filed.symbolsNamed, h'.filed.symbolsNamed, hsymbols, hrelationships]

end GraphQuery

namespace Search

variable {provider : Provider} {resolver : Resolver} {settings : QuerySettings} {s s' : Search} {q : GraphQuery}
  {scope : QueryScope}

/-! ### Queries one after the other -/

/-- A query, and the scope it is asked in. -/
abbrev Asked := GraphQuery × QueryScope

/-- What a query is answered with, apart from where that comes from. -/
def answerOf (provider : Provider) (resolver : Resolver) (q : GraphQuery) (scope : QueryScope) (s : Search) :
    Except AtlasError QueryResult :=
  ((execute provider resolver q scope).run s).1.map QueryResult.plain

/-- The answer is what is remembered, or what the index tells. -/
theorem answerOf_cases (provider : Provider) (resolver : Resolver) (q : GraphQuery) (scope : QueryScope) (s : Search) :
    (∃ found, s.results.get? (q.cacheKey scope) = some found ∧
      answerOf provider resolver q scope s = .ok found.plain) ∨
    answerOf provider resolver q scope s = q.freshAnswer provider resolver s.settings.limit s.index.contents scope := by
  unfold answerOf
  obtain ⟨found, hfound, hr, -⟩ | ⟨e, he, hr, -⟩ | ⟨ix, hv, hfill, hr⟩ :=
    execute_run_cases provider resolver q scope s
  · exact .inl ⟨found, hfound, by rw [hr]; rfl⟩
  · rw [hr, he]
    exact .inr rfl
  · rw [hr.answer, GraphQuery.freshAnswer_of_valid hv hfill]
    exact .inr (congrArg Except.ok (GraphQuery.plain_answer _ _ _))

/-- A search that remembers nothing answers as its index tells. -/
theorem answerOf_of_forgotten (h : s.results.entries = []) (q : GraphQuery) (scope : QueryScope) :
    answerOf provider resolver q scope s = q.freshAnswer provider resolver s.settings.limit s.index.contents scope := by
  obtain ⟨found, hfound, -⟩ | h := answerOf_cases provider resolver q scope s
  · rw [ResultCache.get?, h] at hfound
    cases hfound
  · exact h

/-- A new search after some queries. -/
def afterQueries (provider : Provider) (resolver : Resolver) (settings : QuerySettings) (asked : List Asked) : Search :=
  asked.foldl (fun s a => ((execute provider resolver a.1 a.2).run s).2) (ofSettings settings)

/-- Does the query fill an index that is empty? -/
def fills (provider : Provider) (resolver : Resolver) (a : Asked) : Bool :=
  a.1.violations.isEmpty &&
    match Index.built provider resolver a.2 with
    | .ok ix => !ix.isEmpty
    | .error _ => false

/-- The queries before the one that filled the index. -/
def early (provider : Provider) (resolver : Resolver) (asked : List Asked) : List Asked :=
  asked.takeWhile fun a => !fills provider resolver a

variable {asked : List Asked} {a : Asked} {ix ix' made : Index}

theorem fills_of_built (hv : q.violations = []) (h : Index.built provider resolver scope = .ok made) :
    fills provider resolver (q, scope) = !made.isEmpty := by
  rw [fills, h, hv]
  rfl

theorem mem_early_append (h : a ∈ early provider resolver asked) (more : List Asked) :
    a ∈ early provider resolver (asked ++ more) := by
  unfold early at h ⊢
  rw [List.takeWhile_append]
  split
  · exact List.mem_append_left _ ((List.takeWhile_sublist _).subset h)
  · exact h

theorem mem_early_self (hnone : asked.find? (fills provider resolver) = none) (ha : fills provider resolver a = false) :
    a ∈ early provider resolver (asked ++ [a]) := by
  have hall : ∀ b ∈ asked ++ [a], (!fills provider resolver b) = true := by
    intro b hb
    rcases List.mem_append.mp hb with hb | hb
    · simpa using List.find?_eq_none.mp hnone b hb
    · rw [List.mem_singleton.mp hb, ha]
      rfl
  rw [early, List.takeWhile_eq_self_iff.mpr hall]
  simp

theorem fills_of_mem_early (h : a ∈ early provider resolver asked) : fills provider resolver a = false := by
  simpa using List.mem_takeWhile_imp h

/-- The index is empty, or was built over the scope of the first query that filled it. -/
def Filled (provider : Provider) (resolver : Resolver) (asked : List Asked) (ix : Index) : Prop :=
  match asked.find? (fills provider resolver) with
  | none => ix.isEmpty = true
  | some a => Index.built provider resolver a.2 = .ok ix

theorem Filled.isEmpty_eq (h : Filled provider resolver asked ix) :
    ix.isEmpty = (asked.find? (fills provider resolver)).isNone := by
  unfold Filled at h
  split at h
  · rename_i hnone
    rw [h, hnone]
    rfl
  · rename_i a hsome
    have hfills := List.find?_some hsome
    rw [fills, h] at hfills
    rw [hsome]
    simpa using (Bool.and_eq_true_iff.mp hfills).2

/-- One more query leaves the index as it is, or finds it empty and builds it. -/
theorem Filled.snoc (h : Filled provider resolver asked ix) (hfull : ix.isEmpty = false → ix' = ix)
    (hempty : ix.isEmpty = true →
      (fills provider resolver a = false ∧ ix'.isEmpty = true) ∨
        (fills provider resolver a = true ∧ Index.built provider resolver a.2 = .ok ix')) :
    Filled provider resolver (asked ++ [a]) ix' := by
  have hix := h.isEmpty_eq
  unfold Filled at h ⊢
  rw [List.find?_append]
  cases hfind : asked.find? (fills provider resolver) with
  | none =>
    obtain ⟨hfills, hkept⟩ | ⟨hfills, hbuilt⟩ := hempty (by rw [hix, hfind]; rfl)
    · simp [hfills, hkept]
    · simp [hfills, hbuilt]
  | some b =>
    rw [hfind] at h hix
    rw [hfull hix]
    exact h

/-- What is remembered of a query: what the index tells, or that nothing was there. -/
def Remembers (provider : Provider) (resolver : Resolver) (asked : List Asked) (limit : Int) (ix : Index) (a : Asked)
    (r : QueryResult) : Prop :=
  (ix.isEmpty = false ∧ a.1.freshAnswer provider resolver limit ix a.2 = .ok r.plain) ∨
    (a ∈ early provider resolver asked ∧ a.1.freshAnswer provider resolver limit {} a.2 = .ok r.plain)

/-- A search after some queries. -/
structure Recalls (provider : Provider) (resolver : Resolver) (settings : QuerySettings) (asked : List Asked)
    (s : Search) : Prop where
  settings : s.settings = settings
  covered : s.index.contents.Covered
  index : Filled provider resolver asked s.index.contents
  results : ∀ p ∈ s.results.entries, ∀ q scope, p.1 = q.cacheKey scope →
    Remembers provider resolver asked s.settings.limit s.index.contents (q, scope) p.2

theorem recalls_ofSettings (provider : Provider) (resolver : Resolver) (settings : QuerySettings) :
    Recalls provider resolver settings [] (ofSettings settings) :=
  ⟨rfl, Index.covered_empty, rfl, nofun⟩

/-- The index stays as it is, or was empty. -/
theorem Remembers.snoc {limit : Int} {b : Asked} {r : QueryResult}
    (h : Remembers provider resolver asked limit ix b r) (hfull : ix.isEmpty = false → ix' = ix) :
    Remembers provider resolver (asked ++ [a]) limit ix' b r := by
  obtain ⟨hix, hanswer⟩ | ⟨hearly, hanswer⟩ := h
  · rw [hfull hix]
    exact .inl ⟨hix, hanswer⟩
  · exact .inr ⟨mem_early_append hearly [a], hanswer⟩

/-- The index is as it was or was empty, and nothing more is remembered. -/
theorem Recalls.same (h : Recalls provider resolver settings asked s) (hsame : Same s s')
    (hempty : s.index.contents.isEmpty = true → fills provider resolver a = false) :
    Recalls provider resolver settings (asked ++ [a]) s' := by
  refine ⟨hsame.settings.trans h.settings, hsame.index ▸ h.covered, ?_, fun p hp q scope hkey => ?_⟩ <;>
    rw [hsame.index]
  · exact h.index.snoc (fun _ => rfl) fun hix => .inl ⟨hempty hix, hix⟩
  · rw [hsame.results] at hp
    rw [hsame.settings]
    exact (h.results p hp q scope hkey).snoc fun _ => rfl

/-- A query that fails on an empty index does not fill it. -/
theorem fills_of_error {limit : Int} {e : AtlasError} (hix : ix.isEmpty = true)
    (h : q.freshAnswer provider resolver limit ix scope = .error e) : fills provider resolver (q, scope) = false := by
  refine Bool.eq_false_iff.mpr fun hfills => ?_
  obtain ⟨hv, hbuilt⟩ := Bool.and_eq_true_iff.mp hfills
  split at hbuilt
  · rename_i made hmade
    have hfill : ix.filledFor provider resolver scope = .ok made := by rw [Index.filledFor, hix, if_pos rfl, hmade]
    rw [GraphQuery.freshAnswer_of_valid (List.isEmpty_iff.mp hv) hfill] at h
    cases h
  · cases hbuilt

/-- A query is answered from the index, or as it was before that was filled. -/
theorem Recalls.answer (h : Recalls provider resolver settings asked s) (q : GraphQuery) (scope : QueryScope) :
    answerOf provider resolver q scope s = q.freshAnswer provider resolver s.settings.limit s.index.contents scope ∨
      ((q, scope) ∈ early provider resolver asked ∧
        answerOf provider resolver q scope s = q.freshAnswer provider resolver s.settings.limit {} scope) := by
  obtain ⟨found, hfound, hanswer⟩ | hanswer := answerOf_cases provider resolver q scope s
  · rw [hanswer]
    obtain ⟨-, hfresh⟩ | ⟨hearly, hfresh⟩ := h.results _ (ResultCache.mem_of_get? hfound) q scope rfl
    · exact .inl hfresh.symm
    · exact .inr ⟨hearly, hfresh.symm⟩
  · exact .inl hanswer

/-- An answer that is kept is what the index tells, or nothing was there to fill it. -/
theorem Recalls.remembers (h : Recalls provider resolver settings asked s) (hv : q.violations = [])
    (hfill : s.index.contents.filledFor provider resolver scope = .ok ix) :
    Remembers provider resolver (asked ++ [(q, scope)]) s.settings.limit ix (q, scope)
      (q.answerFrom s.settings.limit scope ix) := by
  have hplain : (q.answerFrom s.settings.limit scope ix).plain = q.answerFrom s.settings.limit scope ix :=
    GraphQuery.plain_answer _ _ _
  unfold Remembers
  rw [hplain]
  cases hix : ix.isEmpty with
  | false => exact .inl ⟨rfl, GraphQuery.freshAnswer_of_valid hv (Index.filledFor_of_not_isEmpty hix)⟩
  | true =>
    have hempty : s.index.contents.isEmpty = true := by
      by_contra hfull
      exact hfull (Index.eq_of_filledFor hfill (Bool.eq_false_iff.mpr hfull) ▸ hix)
    have hbuilt := Index.built_of_filledFor hfill hempty
    have hnone : asked.find? (fills provider resolver) = none := by
      rw [← Option.isNone_iff_eq_none, ← h.index.isEmpty_eq, hempty]
    refine .inr ⟨mem_early_self hnone ?_, GraphQuery.freshAnswer_of_valid hv hbuilt⟩
    rw [fills_of_built hv hbuilt, hix]
    rfl

/-- What was recalled before is recalled after one more query. -/
theorem Recalls.execute (h : Recalls provider resolver settings asked s) (q : GraphQuery) (scope : QueryScope) :
    Recalls provider resolver settings (asked ++ [(q, scope)]) ((execute provider resolver q scope).run s).2 := by
  obtain ⟨found, hfound, -, hsame⟩ | ⟨e, he, -, hsame⟩ | ⟨ix, hv, hfill, hr⟩ :=
    execute_run_cases provider resolver q scope s
  · refine h.same hsame fun hix => ?_
    obtain ⟨hfull, -⟩ | ⟨hearly, -⟩ := h.results _ (ResultCache.mem_of_get? hfound) q scope rfl
    · rw [hix] at hfull
      cases hfull
    · exact fills_of_mem_early hearly
  · exact h.same hsame fun hix => fills_of_error hix he
  have hfull : s.index.contents.isEmpty = false → ix = s.index.contents := Index.eq_of_filledFor hfill
  refine ⟨hr.settings.trans h.settings, ?_, ?_, fun p hp q' scope' hkey => ?_⟩
  · rw [hr.index]
    exact GraphQuery.filledFor_covered h.covered hfill
  · rw [hr.index]
    refine h.index.snoc hfull fun hix => ?_
    have hbuilt := Index.built_of_filledFor hfill hix
    rw [fills_of_built hv hbuilt]
    cases ix.isEmpty with
    | false => exact .inr ⟨rfl, hbuilt⟩
    | true => exact .inl ⟨rfl, rfl⟩
  · rw [hr.index, hr.settings]
    rw [hr.results] at hp
    obtain rfl | hp := ResultCache.mem_insert hp
    · obtain ⟨rfl, rfl⟩ := GraphQuery.eq_of_cacheKey_eq hkey
      exact h.remembers hv hfill
    · exact (h.results p hp q' scope' hkey).snoc hfull

theorem afterQueries_recalls (provider : Provider) (resolver : Resolver) (settings : QuerySettings)
    (asked : List Asked) : Recalls provider resolver settings asked (afterQueries provider resolver settings asked) := by
  induction asked using List.reverseRecOn with
  | nil => exact recalls_ofSettings provider resolver settings
  | append_singleton asked a ih =>
    rw [afterQueries, List.foldl_concat]
    exact ih.execute a.1 a.2

/-! ### What an answer depends on -/

/-- Of the files that may be seen, two scopes list the same. -/
def ListsSame (resolver : Resolver) (visible scope scope' : QueryScope) : Prop :=
  ∃ listed listed', resolver.files scope = .ok listed ∧ resolver.files scope' = .ok listed' ∧
    ∀ uri, visible.contains uri = true →
      ((uri ∈ listed ∧ scope.contains uri = true) ↔ (uri ∈ listed' ∧ scope'.contains uri = true))

/-- An index over another scope answers alike, if that lists the same of what may be seen. -/
theorem freshAnswer_of_listsSame {filling : QueryScope} {limit : Int}
    (hmade : Index.built provider resolver filling = .ok made) (hfull : made.isEmpty = false)
    (hsame : ListsSame resolver (q.effectiveScope scope) filling scope) :
    q.freshAnswer provider resolver limit made scope = q.freshAnswer provider resolver limit {} scope := by
  obtain ⟨listed, listed', hlisted, hlisted', heq⟩ := hsame
  cases hbuilt : Index.built provider resolver scope with
  | error e => simp [Index.built, hlisted'] at hbuilt
  | ok own =>
    obtain ⟨files, hfiles, hshows⟩ := Index.built_shows hmade
    obtain ⟨files', hfiles', hshows'⟩ := Index.built_shows hbuilt
    obtain rfl := Except.ok.inj (hfiles.symm.trans hlisted)
    obtain rfl := Except.ok.inj (hfiles'.symm.trans hlisted')
    have hown : ({} : Index).filledFor provider resolver scope = .ok own := hbuilt
    have hanswer : q.answerFrom limit scope made = q.answerFrom limit scope own :=
      GraphQuery.answerFrom_of_shows hshows hshows' fun uri huri => by simp only [heq uri huri]
    simp only [GraphQuery.freshAnswer, Index.filledFor_of_not_isEmpty hfull, hown, Except.map, hanswer]

/-- However many queries were asked before, with whatever scopes: as long as none of
them has filled the index, a query is answered as the first one on a new search would
be. After that it is answered as by a new search whose index was built over the scope of
the query that filled it; or, if it was asked before that already, as the first one on
a new search. And where both scopes list the same of the files that the query may see,
it is answered as the first one on a new search in any case. -/
theorem answer_after_queries (provider : Provider) (resolver : Resolver) (settings : QuerySettings)
    (asked : List Asked) (q : GraphQuery) (scope : QueryScope) :
    let fresh := ofSettings settings
    let first := answerOf provider resolver q scope fresh
    let later := answerOf provider resolver q scope (afterQueries provider resolver settings asked)
    match asked.find? (fills provider resolver) with
    | none => later = first
    | some filler =>
      let prebuilt := ((onIndex (Index.build provider resolver filler.2)).run fresh).2
      (later = answerOf provider resolver q scope prebuilt ∨
          ((q, scope) ∈ early provider resolver asked ∧ later = first)) ∧
        (ListsSame resolver (q.effectiveScope scope) filler.2 scope → later = first) := by
  intro fresh first later
  have hrecalls := afterQueries_recalls provider resolver settings asked
  have hlater := hrecalls.answer q scope
  have hindex := hrecalls.index
  have hempty := hindex.isEmpty_eq
  have hfirst : first = q.freshAnswer provider resolver settings.limit {} scope := answerOf_of_forgotten rfl q scope
  rw [hrecalls.settings, ← hfirst] at hlater
  unfold Filled at hindex
  cases hfind : asked.find? (fills provider resolver) with
  | none =>
    rw [hfind] at hindex
    refine hlater.elim (fun h => h.trans ?_) And.right
    have hnew : ({} : Index).isEmpty = true := rfl
    rw [hfirst, GraphQuery.freshAnswer_of_filledFor (Index.filledFor_of_isEmpty hnew hindex)]
  | some filler =>
    rw [hfind] at hindex hempty
    dsimp only
    obtain ⟨hmade, hresults, hsettings⟩ := run_onIndex_build hindex fresh
    have hprebuilt : answerOf provider resolver q scope _ = _ :=
      answerOf_of_forgotten (congrArg ResultCache.entries hresults) q scope
    rw [hmade, hsettings] at hprebuilt
    refine ⟨?_, fun hsame => ?_⟩
    · rw [hprebuilt]
      exact hlater
    · refine hlater.elim (fun h => h.trans ?_) And.right
      rw [hfirst]
      exact freshAnswer_of_listsSame hindex hempty hsame

/-- Two files with a function each. -/
def twoFunctions : MemoryProvider :=
  let function (name : String) : RawSymbol := { name, kind := .name "function", range := default }
  (({} : MemoryProvider).addFile "file:///a.rs" [function "f"] "").addFile "file:///b.rs" [function "g"] ""

/-- Only the first of them. -/
def firstFile : QueryScope := { paths := ["a.rs"] }

/-- All symbols are asked for in the workspace, once on a new search and once after the
same was asked in a narrow scope. -/
theorem narrow_query_hides_symbols :
    let everything := GraphQuery.ofPatterns ["*"]
    let answer (s : Search) := answerOf twoFunctions.provider twoFunctions.resolver everything .workspace s
    let asked := afterQueries twoFunctions.provider twoFunctions.resolver {} [(everything, firstFile)]
    everything.violations = [] ∧
      (answer (ofSettings {})).toOption.map (·.symbols.map Symbol.name) = some ["f", "g"] ∧
      (answer asked).toOption.map (·.symbols.map Symbol.name) = some ["f"] := by
  decide +kernel

/-- A resolver of files in memory lists the same, where both scopes let in all that may be seen. -/
theorem listsSame_resolver (m : MemoryProvider) {visible scope scope' : QueryScope}
    (h : ∀ uri, visible.contains uri = true → scope.contains uri = true ∧ scope'.contains uri = true) :
    ListsSame m.resolver visible scope scope' := by
  refine ⟨_, _, rfl, rfl, fun uri huri => ?_⟩
  obtain ⟨hscope, hscope'⟩ := h uri huri
  rw [List.mem_filter, List.mem_filter]
  simp only [hscope, hscope', and_true]

theorem wide_query_hides_nothing :
    let everything := GraphQuery.ofPatterns ["*"]
    let answer (s : Search) := answerOf twoFunctions.provider twoFunctions.resolver everything firstFile s
    let asked := afterQueries twoFunctions.provider twoFunctions.resolver {} [(everything, .workspace)]
    ListsSame twoFunctions.resolver (everything.effectiveScope firstFile) .workspace firstFile ∧
      answer asked = answer (ofSettings {}) ∧
      (answer asked).toOption.map (·.symbols.map Symbol.name) = some ["f"] := by
  intro everything answer asked
  have hsame : ListsSame twoFunctions.resolver (everything.effectiveScope firstFile) .workspace firstFile := by
    refine listsSame_resolver twoFunctions fun uri huri => ?_
    have hfirst : firstFile.contains uri = true := huri
    refine ⟨?_, hfirst⟩
    simp only [QueryScope.contains, Bool.and_eq_true] at hfirst
    exact hfirst.2
  have hfiller : [(everything, QueryScope.workspace)].find? (fills twoFunctions.provider twoFunctions.resolver) =
      some (everything, .workspace) := by decide +kernel
  have hlater := answer_after_queries twoFunctions.provider twoFunctions.resolver {} [(everything, .workspace)]
    everything firstFile
  simp only [hfiller] at hlater
  exact ⟨hsame, hlater.2 hsame, by decide +kernel⟩

end Search

end CodeAtlas
