import CodeAtlas.Proofs.Query.Answer
import CodeAtlas.Proofs.Query.Names

/-! Which symbols a query selects that has no bounds of its own.

A query without limit, offset and traversal is answered with the first of the matching
symbols in its effective scope, as many as a page may have (`symbols_answerFrom`). Its
candidates may come from the table of names, which knows no name with a long s
(`matching_candidates_eq`). -/
namespace CodeAtlas.GraphQuery
open Query

variable {q : GraphQuery} {ix : Index} {limit : Int} {scope : QueryScope} {names : List String}

/-- The symbols of an index that a query matches in its effective scope, in index order. -/
def matched (q : GraphQuery) (scope : QueryScope) (ix : Index) : List Symbol :=
  q.matching (ix.symbolsInScope (q.effectiveScope scope))

/-- How many items a page has under a configured limit. -/
def pageSize (limit : Int) : Nat := (ceiling limit).toNat

/-- Only plain patterns are looked up by name. -/
theorem plain_of_literalNames? (h : q.literalNames? = some names) :
    ∃ patterns, q.select.symbols = some patterns ∧ (∀ p ∈ patterns, IsPlain p) ∧ names = namesOf patterns := by
  unfold literalNames? at h
  split at h
  · cases h
  · rename_i patterns hselect
    have hnames : (if (!(namesOf patterns).isEmpty &&
        (namesOf patterns).all fun n => n.toList.all fun c => c.toNat < 128 && c != '*') = true
      then some (namesOf patterns) else none) = some names := h
    split at hnames
    · rename_i hliteral
      refine ⟨patterns, hselect, fun p hp c hc => ?_, (Option.some.inj hnames).symm⟩
      have hne : Text.trim p ≠ "" := by
        rintro hblank
        rw [hblank] at hc
        cases hc
      have hall := (Bool.and_eq_true_iff.mp hliteral).2
      simp only [List.all_eq_true, Bool.and_eq_true, decide_eq_true_eq, bne_iff_ne] at hall
      exact hall _ (mem_namesOf.mpr ⟨p, hp, rfl, hne⟩) c hc
    · cases hnames

/-- Among the candidates the same symbols match as in the whole scope, unless the names are
looked up and one with a long s matches. -/
theorem matching_candidates_eq (hf : ix.Filed) (htraverse : q.traverse = none)
    (hnames : q.literalNames? = none ∨ ∀ s ∈ q.matching (ix.symbolsInScope scope), Text.longS ∉ s.name.toList) :
    q.matching (q.candidates ix scope) = q.matching (ix.symbolsInScope scope) := by
  rw [candidates, htraverse]
  cases hliteral : q.literalNames? with
  | none => rfl
  | some names =>
    obtain ⟨patterns, hselect, hplain, rfl⟩ := plain_of_literalNames? hliteral
    have hshort := hnames.resolve_left (by simp [hliteral])
    dsimp only
    rw [hf.symbolsNamed, matching_filter_isCalled hselect hplain, List.filter_eq_self]
    intro s hs
    simpa using hshort s hs

theorem toInt_ofInt_ceiling (limit : Int) : (Int64.ofInt (ceiling limit)).toInt = ceiling limit := by
  have hbounds : 1 ≤ ceiling limit ∧ ceiling limit ≤ maxLimit := by
    unfold ceiling maxLimit
    split
    · omega
    · split <;> omega
  obtain ⟨hlow, hhigh⟩ := hbounds
  unfold maxLimit at hhigh
  exact Int64.toInt_ofInt_of_le (by omega) (by omega)

/-- A query without bounds gets one page from the beginning. -/
theorem normalize_unbounded (limit : Int) (hlimit : q.limit = none) (hoffset : q.offset = none) :
    (q.normalize limit).limit = some (Int64.ofInt (ceiling limit)) ∧ (q.normalize limit).offset = some 0 := by
  simp [normalize, hlimit, hoffset]

theorem matching_normalize (q : GraphQuery) (limit : Int) (symbols : List Symbol) :
    (q.normalize limit).matching symbols = q.matching symbols := by
  unfold matching normalize
  cases q.filter <;> rfl

/-- Bounds do not change the candidates. -/
theorem candidates_normalize (htraverse : q.traverse = none) (limit : Int) (ix : Index) (scope : QueryScope) :
    (q.normalize limit).candidates ix scope = q.candidates ix scope := by
  have hnone : (q.normalize limit).traverse = none := by simp [normalize, htraverse]
  rw [candidates, candidates, hnone, htraverse]
  rfl

/-- The symbols of the answer are a page of the matching ones, from the beginning. -/
theorem symbols_answerFrom (hf : ix.Filed) (hlimit : q.limit = none) (hoffset : q.offset = none)
    (htraverse : q.traverse = none)
    (hnames : q.literalNames? = none ∨ ∀ s ∈ q.matched scope ix, Text.longS ∉ s.name.toList) :
    (q.answerFrom limit scope ix).symbols = (q.matched scope ix).take (pageSize limit) := by
  have hnone : (q.normalize limit).traverse = none := by simp [normalize, htraverse]
  obtain ⟨htop, hstart⟩ := normalize_unbounded limit hlimit hoffset
  simp only [answerFrom, effectiveScope_normalize, answer, hnone, htop, hstart, QueryResult.ofParts, page,
    matching_normalize, candidates_normalize htraverse, Option.map_some, Option.getD_some, toInt_ofInt_ceiling]
  rw [matching_candidates_eq hf htraverse hnames]
  rfl

/-- Every symbol matches when none is named. -/
theorem matching_star (symbols : List Symbol) : (ofPatterns ["*"]).matching symbols = symbols :=
  List.filter_eq_self.mpr fun _ _ => rfl

end CodeAtlas.GraphQuery
