import CodeAtlas.Proofs.Query.History

/-! Which requests share an answer.

A result is remembered under the text of its query and scope, and that text determines
both, whatever characters their patterns and paths are made of. So an answer that comes
from the results was given before, to the same query in the same scope
(`cacheKey_separates_requests`). -/
namespace CodeAtlas.Search

variable {provider : Provider} {resolver : Resolver} {settings : QuerySettings} {s : Search} {q : GraphQuery}
  {scope : QueryScope} {asked : List Asked} {p : String × QueryResult}

/-- One query adds at most its own answer to what is remembered. -/
theorem mem_results_execute (h : p ∈ ((execute provider resolver q scope).run s).2.results.entries) :
    p ∈ s.results.entries ∨ (p.1 = q.cacheKey scope ∧ answerOf provider resolver q scope s = .ok p.2.plain) := by
  obtain ⟨found, -, -, hsame⟩ | ⟨e, -, -, hsame⟩ | ⟨ix, -, -, hr⟩ := execute_run_cases provider resolver q scope s
  · exact .inl (hsame.results ▸ h)
  · exact .inl (hsame.results ▸ h)
  · rw [hr.results] at h
    obtain rfl | h := ResultCache.mem_insert h
    · exact .inr ⟨rfl, by rw [answerOf, hr.answer]; rfl⟩
    · exact .inl h

/-- A remembered result is what some earlier query was answered with when it was asked. -/
theorem mem_results_afterQueries (h : p ∈ (afterQueries provider resolver settings asked).results.entries) :
    ∃ before q scope after, asked = before ++ (q, scope) :: after ∧ p.1 = q.cacheKey scope ∧
      answerOf provider resolver q scope (afterQueries provider resolver settings before) = .ok p.2.plain := by
  induction asked using List.reverseRecOn with
  | nil => cases h
  | append_singleton asked a ih =>
    rw [afterQueries, List.foldl_concat] at h
    obtain h | ⟨hkey, hanswer⟩ := mem_results_execute h
    · obtain ⟨before, q, scope, after, rfl, hkey, hanswer⟩ := ih h
      exact ⟨before, q, scope, after ++ [a], by simp, hkey, hanswer⟩
    · exact ⟨asked, a.1, a.2, [], rfl, hkey, hanswer⟩

/-- An answer says that it comes from the results only if it is one of them. -/
theorem remembered_of_fromCache {r : QueryResult} (h : ((execute provider resolver q scope).run s).1 = .ok r)
    (hcache : r.fromCache = true) : ∃ found, (q.cacheKey scope, found) ∈ s.results.entries ∧ r.plain = found.plain := by
  obtain ⟨found, hfound, hr, -⟩ | ⟨e, -, hr, -⟩ | ⟨ix, -, -, hr⟩ := execute_run_cases provider resolver q scope s
  · rw [h] at hr
    exact ⟨found, ResultCache.mem_of_get? hfound, by rw [Except.ok.inj hr]; rfl⟩
  · rw [h] at hr
    cases hr
  · have hfresh : r = q.answerFrom s.settings.limit scope ix := Except.ok.inj (h.symm.trans hr.answer)
    have hplain : r.plain = r := by rw [hfresh]; exact GraphQuery.plain_answer _ _ _
    rw [← hplain] at hcache
    cases hcache

/-- Requests have one text only if they are the same. And whatever was asked before, an
answer that comes from the results is the one that the same query was given in the same
scope earlier. -/
theorem cacheKey_separates_requests :
    (∀ (q q' : GraphQuery) (scope scope' : QueryScope), q.cacheKey scope = q'.cacheKey scope' →
      q = q' ∧ scope = scope') ∧
    ∀ (provider : Provider) (resolver : Resolver) (settings : QuerySettings) (asked : List Asked) (q : GraphQuery)
      (scope : QueryScope) (r : QueryResult),
      ((execute provider resolver q scope).run (afterQueries provider resolver settings asked)).1 = .ok r →
      r.fromCache = true →
      ∃ before after, asked = before ++ (q, scope) :: after ∧
        answerOf provider resolver q scope (afterQueries provider resolver settings before) = .ok r.plain := by
  refine ⟨fun q q' scope scope' => GraphQuery.eq_of_cacheKey_eq, ?_⟩
  intro provider resolver settings asked q scope r hr hcache
  obtain ⟨found, hfound, hplain⟩ := remembered_of_fromCache hr hcache
  obtain ⟨before, q', scope', after, hasked, hkey, hanswer⟩ := mem_results_afterQueries hfound
  obtain ⟨rfl, rfl⟩ := GraphQuery.eq_of_cacheKey_eq hkey
  exact ⟨before, after, hasked, hplain ▸ hanswer⟩

/-- A pattern that looks like the end of a query and the beginning of a scope. -/
def forgedQuery : GraphQuery := .ofPatterns ["*", "\"]\x7d\x7d|\x7b\"paths\":[\"\\\n"]

/-- A path that looks like the end of a scope. -/
def forgedScope : QueryScope := { paths := [".rs", "\"]\x7d|\\\t"] }

/-- Such a request is answered from the results when it is made again, with its own answer. -/
theorem forged_request_recalls_itself :
    let execute (s : Search) := (execute twoFunctions.provider twoFunctions.resolver forgedQuery forgedScope).run s
    let first := execute (ofSettings {})
    (forgedQuery = forgedQuery ∧ forgedScope = forgedScope) ∧
      ∃ r, (execute first.2).1 = .ok r ∧ r.fromCache = true ∧
        ∃ before after, [(forgedQuery, forgedScope)] = before ++ (forgedQuery, forgedScope) :: after ∧
          answerOf twoFunctions.provider twoFunctions.resolver forgedQuery forgedScope
            (afterQueries twoFunctions.provider twoFunctions.resolver {} before) = .ok r.plain := by
  intro execute first
  obtain ⟨hkeys, hanswers⟩ := cacheKey_separates_requests
  have hagain : ((execute first.2).1.toOption.map QueryResult.fromCache) = some true := by decide +kernel
  obtain ⟨r, hr, hcache⟩ := Option.map_eq_some_iff.mp hagain
  have hok : (execute first.2).1 = .ok r := by
    cases h : (execute first.2).1 with
    | error e => rw [h] at hr; cases hr
    | ok r' => rw [h] at hr; exact congrArg Except.ok (Option.some.inj hr)
  exact ⟨hkeys forgedQuery forgedQuery forgedScope forgedScope rfl, r, hok, hcache,
    hanswers _ _ {} [(forgedQuery, forgedScope)] forgedQuery forgedScope r hok hcache⟩

end CodeAtlas.Search
