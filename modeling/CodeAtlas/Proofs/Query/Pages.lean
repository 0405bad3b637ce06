import CodeAtlas.Proofs.Query.History
import CodeAtlas.Proofs.Query.Selection

/-! The pages of a query.

What a query matches is two lists, of symbols and of relationships (`allSymbols`,
`allRelationships`), and neither depends on the limit or the offset. An answer that is not
remembered is one page of both (`IsPage`), whose bounds are what the query asks for, within
what is configured (`isPage_answerFrom`). Queries that differ are not remembered for one
another, so a search that is asked for one page after the other answers each from its index
(`answers_eq`). Side by side these pages are both lists (`flatMap_page`). -/
namespace CodeAtlas

namespace GraphQuery

variable {q : GraphQuery} {scope : QueryScope} {ix : Index}

/-! ### What there is to see -/

/-- The symbols that match among the candidates, however many. -/
def allSymbols (q : GraphQuery) (scope : QueryScope) (ix : Index) : List Symbol :=
  q.matching (q.candidates ix (q.effectiveScope scope))

/-- The relationships of the selected types, however many. -/
def allRelationships (q : GraphQuery) (scope : QueryScope) (ix : Index) : List Relationship :=
  q.matchingRelationships (ix.relationshipsInScope (q.effectiveScope scope))

theorem matching_sublist (q : GraphQuery) (symbols : List Symbol) : (q.matching symbols).Sublist symbols := by
  unfold matching
  split
  · exact List.nil_sublist symbols
  · exact List.filter_sublist

/-- Whether names are looked up or not, what matches stands in index order. -/
theorem allSymbols_sublist (hf : ix.Filed) (q : GraphQuery) (scope : QueryScope) :
    (q.allSymbols scope ix).Sublist (ix.symbolsInScope (q.effectiveScope scope)) := by
  refine (matching_sublist q _).trans ?_
  unfold candidates
  split
  · rw [hf.symbolsNamed]
    exact List.filter_sublist
  · exact List.Sublist.refl _

theorem allRelationships_sublist (q : GraphQuery) (scope : QueryScope) (ix : Index) :
    (q.allRelationships scope ix).Sublist (ix.relationshipsInScope (q.effectiveScope scope)) := by
  unfold allRelationships matchingRelationships
  split
  · exact List.nil_sublist _
  · exact List.filter_sublist

/-! ### One page -/

/-- The result is this part of both lists. -/
structure IsPage (symbols : List Symbol) (relationships : List Relationship) (offset size : Nat) (r : QueryResult) :
    Prop where
  symbols : r.symbols = (symbols.drop offset).take size
  relationships : r.relationships = (relationships.drop offset).take size
  total : r.total = r.symbols.length + r.relationships.length
  fresh : r.fromCache = false

/-- Where the query asks its page to begin. -/
def start (q : GraphQuery) : Nat := (q.offset.map (·.toInt.toNat)).getD 0

/-- How many items the query asks for, of as many as a page may have. -/
def size (q : GraphQuery) (top : Nat) : Nat := min ((q.limit.map (·.toInt.toNat)).getD top) top

/-- The bounds a query gets are those it asks for, within what a page may have. -/
theorem bounds_normalize (q : GraphQuery) (limit : Int) :
    (q.normalize limit).limit.map (·.toInt.toNat) = some (q.size (pageSize limit)) ∧
      (q.normalize limit).offset.map (·.toInt.toNat) = some q.start := by
  have htop : (Int64.ofInt (ceiling limit)).toInt.toNat = pageSize limit := by rw [toInt_ofInt_ceiling, pageSize]
  constructor
  · rw [normalize, size]
    dsimp only
    cases q.limit with
    | none =>
      rw [Option.getD_none, if_neg (lt_irrefl _), Option.map_some, htop, Option.map_none, Option.getD_none,
        Nat.min_self]
    | some wanted =>
      rw [Option.getD_some, Option.map_some, Option.map_some, Option.getD_some, ← htop]
      split <;> rename_i hlt <;> congr 1 <;> omega
  · rw [normalize, start]
    cases q.offset <;> rfl

theorem isPage_answerFrom (htraverse : q.traverse = none) (limit : Int) (scope : QueryScope) (ix : Index) :
    IsPage (q.allSymbols scope ix) (q.allRelationships scope ix) q.start (q.size (pageSize limit))
      (q.answerFrom limit scope ix) := by
  have hnone : (q.normalize limit).traverse = none := by simp [normalize, htraverse]
  have hrelationships : ∀ rs, (q.normalize limit).matchingRelationships rs = q.matchingRelationships rs := fun _ => rfl
  obtain ⟨hsize, hstart⟩ := bounds_normalize q limit
  have hanswer : q.answerFrom limit scope ix = .ofParts (page q.start (q.size (pageSize limit)) (q.allSymbols scope ix))
      (page q.start (q.size (pageSize limit)) (q.allRelationships scope ix)) := by
    simp only [answerFrom, effectiveScope_normalize, answer, hnone, hsize, hstart, matching_normalize,
      candidates_normalize htraverse, hrelationships, Option.getD_some]
    rfl
  rw [hanswer]
  exact ⟨rfl, rfl, rfl, rfl⟩

/-- As many items as a page may have: the configured number, kept between 1 and the most there can be. -/
theorem pageSize_limit {settings : QuerySettings} (h : settings.maxLimit < 2 ^ 63) :
    pageSize settings.limit = max 1 (min settings.maxLimit 1000) := by
  have hread : settings.limit = settings.maxLimit := Int64.toInt_ofNat_of_lt h
  rw [pageSize, hread]
  unfold ceiling maxLimit
  split
  · omega
  · split <;> omega

/-! ### One page after the other -/

/-- The query for a page of so many items, with so many pages before it. -/
def pageAt (q : GraphQuery) (limit k : Nat) : GraphQuery :=
  { q with limit := some (Int64.ofNat limit), offset := some (Int64.ofNat (k * limit)) }

section PageAt

variable {limit k j count : Nat}

theorem start_pageAt (h : k * limit < 2 ^ 63) : (q.pageAt limit k).start = k * limit := by
  show (Int64.ofNat (k * limit)).toInt.toNat = _
  rw [Int64.toInt_ofNat_of_lt h]
  rfl

theorem size_pageAt {top : Nat} (hlimit : limit < 2 ^ 63) (htop : limit ≤ top) :
    (q.pageAt limit k).size top = limit := by
  show min (Int64.ofNat limit).toInt.toNat top = _
  rw [Int64.toInt_ofNat_of_lt hlimit]
  exact Nat.min_eq_left htop

theorem violations_pageAt (hv : q.violations = []) (hpos : 1 ≤ limit) (hlimit : limit < 2 ^ 63)
    (h : k * limit < 2 ^ 63) : (q.pageAt limit k).violations = [] := by
  unfold violations at hv ⊢
  simp only [List.append_eq_nil_iff] at hv ⊢
  obtain ⟨⟨⟨hselect, htraverse⟩, -⟩, -⟩ := hv
  refine ⟨⟨⟨hselect, htraverse⟩, ?_⟩, ?_⟩
  · show offsetViolations (Int64.ofNat (k * limit)) = []
    unfold offsetViolations
    rw [Int64.toInt_ofNat_of_lt h]
    exact if_neg (by omega)
  · show limitViolations (Int64.ofNat limit) = []
    unfold limitViolations
    rw [Int64.toInt_ofNat_of_lt hlimit]
    exact if_neg (by omega)

/-- Queries for different pages differ. -/
theorem pageAt_inj (hpos : 1 ≤ limit) (hk : k * limit < 2 ^ 63) (hj : j * limit < 2 ^ 63)
    (h : q.pageAt limit k = q.pageAt limit j) : k = j := by
  have hstart : k * limit = j * limit := by rw [← start_pageAt hk, h, start_pageAt hj]
  exact Nat.eq_of_mul_eq_mul_right hpos hstart

theorem nodup_pages (hpos : 1 ≤ limit) (h : ∀ k < count, k * limit < 2 ^ 63) :
    ((List.range count).map (q.pageAt limit)).Nodup := by
  refine List.Nodup.map_on (fun k hk j hj heq => ?_) List.nodup_range
  exact pageAt_inj hpos (h k (List.mem_range.mp hk)) (h j (List.mem_range.mp hj)) heq

/-- Side by side, pages are what there is from the beginning. -/
theorem flatMap_page {α : Type} (limit count : Nat) (items : List α) :
    ((List.range count).flatMap fun k => page (k * limit) limit items) = items.take (count * limit) := by
  induction count with
  | zero => simp
  | succ count ih =>
    rw [List.range_succ, List.flatMap_append, ih, Nat.succ_mul, List.take_add]
    simp [page]

end PageAt

end GraphQuery

/-! ### Searches -/

namespace Search
open GraphQuery

variable {provider : Provider} {resolver : Resolver} {q : GraphQuery} {scope : QueryScope} {s : Search}

/-- The query is not remembered, so it will be answered anew. -/
def IsNew (s : Search) (q : GraphQuery) (scope : QueryScope) : Prop := s.results.get? (q.cacheKey scope) = none

/-- A new query that may run is answered from the index, when that has files. -/
theorem execute_new (provider : Provider) (resolver : Resolver) (hfull : s.index.isEmpty = false)
    (hv : q.violations = []) (hnew : s.IsNew q scope) :
    let r := (execute provider resolver q scope).run s
    Answered q s.settings.limit scope s s.index.contents r.1 r.2 := by
  intro r
  have hfilled : s.index.contents.filledFor provider resolver scope = .ok s.index.contents :=
    Index.filledFor_of_not_isEmpty hfull
  obtain ⟨found, hfound, -, -⟩ | ⟨e, he, -, -⟩ | ⟨ix, -, hfill, hanswered⟩ :=
    execute_run_cases provider resolver q scope s
  · rw [hnew] at hfound
    cases hfound
  · rw [freshAnswer_of_valid hv hfilled] at he
    cases he
  · obtain rfl := Except.ok.inj (hfilled.symm.trans hfill)
    exact hanswered

/-- Another query is still new after that. -/
theorem IsNew.keep {ix : Index} {limit : Int} {answer : Except AtlasError QueryResult} {s' : Search} {q' : GraphQuery}
    (h : s.IsNew q' scope) (hanswered : Answered q limit scope s ix answer s') (hne : q' ≠ q) : s'.IsNew q' scope := by
  unfold IsNew at h ⊢
  rw [ResultCache.get?_eq_none_iff] at h ⊢
  intro e he
  rw [hanswered.results] at he
  obtain rfl | he := ResultCache.mem_insert he
  · exact fun hkey => hne (eq_of_cacheKey_eq hkey).1.symm
  · exact h e he

/-- What some queries in one scope are answered with, asked one after the other. -/
def answers (provider : Provider) (resolver : Resolver) (scope : QueryScope) :
    List GraphQuery → Search → List (Except AtlasError QueryResult)
  | [], _ => []
  | q :: qs, s =>
    let r := (execute provider resolver q scope).run s
    r.1 :: answers provider resolver scope qs r.2

/-- Different new queries are all answered from the index as it is. -/
theorem answers_eq {qs : List GraphQuery} (hfull : s.index.isEmpty = false) (hne : qs.Nodup)
    (hv : ∀ q ∈ qs, q.violations = []) (hnew : ∀ q ∈ qs, s.IsNew q scope) :
    answers provider resolver scope qs s =
      qs.map fun q => .ok (q.answerFrom s.settings.limit scope s.index.contents) := by
  induction qs generalizing s with
  | nil => rfl
  | cons q qs ih =>
    obtain ⟨hq, hrest⟩ := List.nodup_cons.mp hne
    have hanswered : Answered q s.settings.limit scope s s.index.contents _ _ :=
      execute_new provider resolver hfull (hv q List.mem_cons_self)
        (hnew q List.mem_cons_self)
    rw [answers, List.map_cons, hanswered.answer, ih (congrArg Index.isEmpty hanswered.index ▸ hfull) hrest
      (fun q' h => hv q' (List.mem_cons_of_mem q h)) fun q' h => ?_]
    · rw [hanswered.settings, hanswered.index]
    · exact (hnew q' (List.mem_cons_of_mem q h)).keep hanswered fun heq => hq (heq ▸ h)

/-- Pages that are new, asked for one after the other, are answered with as much of both lists. -/
theorem answers_pages (provider : Provider) (resolver : Resolver) {limit count : Nat}
    (hmax : s.settings.maxLimit < 2 ^ 63) (hfull : s.index.isEmpty = false) (hv : q.violations = [])
    (htraverse : q.traverse = none) (hpos : 1 ≤ limit) (hlimit : limit ≤ max 1 (min s.settings.maxLimit 1000))
    (hbound : ∀ k < count, k * limit < 2 ^ 63)
    (hnew : ∀ k < count, s.IsNew (q.pageAt limit k) scope) :
    ∃ pages : List QueryResult,
      answers provider resolver scope ((List.range count).map (q.pageAt limit)) s = pages.map .ok ∧
        pages.flatMap QueryResult.symbols = (q.allSymbols scope s.index).take (count * limit) ∧
        pages.flatMap QueryResult.relationships = (q.allRelationships scope s.index).take (count * limit) := by
  have hsmall : limit < 2 ^ 63 := by omega
  let answer (k : Nat) : QueryResult := (q.pageAt limit k).answerFrom s.settings.limit scope s.index.contents
  -- Each answer is its part of the whole lists, and all parts have one length.
  have hpage : ∀ k ∈ List.range count,
      IsPage (q.allSymbols scope s.index) (q.allRelationships scope s.index) (k * limit) limit (answer k) := by
    intro k hk
    have h : IsPage (q.allSymbols scope s.index) (q.allRelationships scope s.index) _ _ (answer k) :=
      isPage_answerFrom (q := q.pageAt limit k) htraverse s.settings.limit scope s.index.contents
    rwa [start_pageAt (hbound k (List.mem_range.mp hk)), pageSize_limit hmax, size_pageAt hsmall hlimit] at h
  refine ⟨(List.range count).map answer, ?_, ?_, ?_⟩
  · rw [answers_eq hfull (nodup_pages hpos hbound), List.map_map, List.map_map]
    · rfl
    · intro q' hq'
      obtain ⟨k, hk, rfl⟩ := List.mem_map.mp hq'
      exact violations_pageAt hv hpos hsmall (hbound k (List.mem_range.mp hk))
    · intro q' hq'
      obtain ⟨k, hk, rfl⟩ := List.mem_map.mp hq'
      exact hnew k (List.mem_range.mp hk)
  · rw [List.flatMap_map, ← flatMap_page]
    exact List.flatMap_congr fun k hk => (hpage k hk).symbols
  · rw [List.flatMap_map, ← flatMap_page]
    exact List.flatMap_congr fun k hk => (hpage k hk).relationships

/-- A search whose index has files is asked a query that may run and follows no relationships.
If that is new, the answer is one page of all symbols that match, and of all relationships. The
page begins at the offset, or else at the beginning. It is as long as the limit, or else as what
is configured, but not longer than this; and what is configured is kept between 1 and 1000. The
total counts both parts. So for every limit within these bounds: as many pages as one likes,
asked for one after the other, are side by side the first symbols and relationships of the whole
lists, and when there are enough of them, exactly the whole lists. These stand in index order:
the relationships among those in scope, the symbols too, in every index that came about by
builds, updates and clears; and there all symbols that match in scope are listed, unless names
are looked up and one with a long s matches. -/
theorem pages_are_all_there_is (provider : Provider) (resolver : Resolver) (s : Search) (scope : QueryScope)
    (q : GraphQuery) (hmax : s.settings.maxLimit < 2 ^ 63) (hfull : s.index.isEmpty = false) (hv : q.violations = [])
    (htraverse : q.traverse = none) :
    let top := max 1 (min s.settings.maxLimit 1000)
    let symbols := q.allSymbols scope s.index
    let relationships := q.allRelationships scope s.index
    (s.IsNew q scope → ∃ r, ((execute provider resolver q scope).run s).1 = .ok r ∧
        IsPage symbols relationships ((q.offset.map (·.toInt.toNat)).getD 0)
          (min ((q.limit.map (·.toInt.toNat)).getD top) top) r) ∧
      (∀ limit count : Nat, 1 ≤ limit → limit ≤ top → (∀ k < count, k * limit < 2 ^ 63) →
        (∀ k < count, s.IsNew (q.pageAt limit k) scope) →
        ∃ pages : List QueryResult,
          answers provider resolver scope ((List.range count).map (q.pageAt limit)) s = pages.map .ok ∧
            pages.flatMap QueryResult.symbols = symbols.take (count * limit) ∧
            pages.flatMap QueryResult.relationships = relationships.take (count * limit) ∧
            (symbols.length ≤ count * limit → relationships.length ≤ count * limit →
              pages.flatMap QueryResult.symbols = symbols ∧ pages.flatMap QueryResult.relationships = relationships)) ∧
      relationships.Sublist (s.index.relationshipsInScope (q.effectiveScope scope)) ∧
      ∀ moves : List (System.Move IndexCall Unit), s.index.contents = (Index.history moves).state.contents →
        symbols.Sublist (s.index.symbolsInScope (q.effectiveScope scope)) ∧
          ((q.literalNames? = none ∨ ∀ x ∈ q.matched scope s.index, Text.longS ∉ x.name.toList) →
            symbols = q.matched scope s.index) := by
  intro top symbols relationships
  have hpage : IsPage symbols relationships q.start (q.size (pageSize s.settings.limit)) _ :=
    isPage_answerFrom htraverse s.settings.limit scope s.index.contents
  rw [pageSize_limit hmax] at hpage
  refine ⟨fun hnew => ⟨_, (execute_new provider resolver hfull hv hnew).answer, hpage⟩, ?_,
    allRelationships_sublist q scope s.index, fun moves hmoves => ?_⟩
  · intro limit count hpos hlimit hbound hnew
    obtain ⟨pages, hanswers, hsymbols, hrelationships⟩ := answers_pages provider resolver hmax hfull hv
      htraverse hpos hlimit hbound hnew
    refine ⟨pages, hanswers, hsymbols, hrelationships, fun hs hr => ?_⟩
    rw [hsymbols, hrelationships]
    exact ⟨List.take_of_length_le hs, List.take_of_length_le hr⟩
  · have hcontents : s.index.contents.Filed := hmoves ▸ (Index.history_filed moves).of_eq rfl rfl rfl
    have hfiled : s.index.Filed := hcontents.of_eq rfl rfl rfl
    exact ⟨allSymbols_sublist hfiled q scope, matching_candidates_eq hfiled htraverse⟩

/-- A file with two symbols, which imports three others. -/
def importing : MemoryProvider :=
  let symbol (name kind : String) : RawSymbol := { name, kind := .name kind, range := default }
  ({} : MemoryProvider).addFile "file:///a.rs" [symbol "f" "function", symbol "a.rs" "file"]
    "use b;\nuse c;\nuse d;\n"

/-- The file is indexed. -/
def importingIndexed : List (System.Move IndexCall Unit) :=
  [.start (.build importing.provider importing.resolver .workspace), .go 0, .go 0]

/-- All symbols are asked for, and all imports. -/
def symbolsAndImports : GraphQuery := { select := { symbols := some ["*"], relationships := some [.imports] } }

/-- Two pages of two items hold the two symbols and the three relationships. -/
theorem two_pages_are_enough :
    let s : Search := { ofSettings { maxLimit := 2 } with index := (Index.history importingIndexed).state }
    let q := symbolsAndImports
    let symbols := q.allSymbols .workspace s.index
    let relationships := q.allRelationships .workspace s.index
    (s.settings.maxLimit < 2 ^ 63 ∧ s.index.isEmpty = false ∧ q.violations = [] ∧ q.traverse = none ∧
        s.IsNew q .workspace ∧ (∀ k < 2, k * 2 < 2 ^ 63) ∧ (∀ k < 2, s.IsNew (q.pageAt 2 k) .workspace) ∧
        s.index.contents = (Index.history importingIndexed).state.contents ∧ q.literalNames? = none) ∧
      symbols.length = 2 ∧ relationships.length = 3 ∧
      (∃ r, ((execute importing.provider importing.resolver q .workspace).run s).1 = .ok r ∧
        IsPage symbols relationships 0 2 r) ∧
      (∃ pages : List QueryResult,
        answers importing.provider importing.resolver .workspace [q.pageAt 2 0, q.pageAt 2 1] s = pages.map .ok ∧
          pages.flatMap QueryResult.symbols = symbols ∧ pages.flatMap QueryResult.relationships = relationships) ∧
      symbols = q.matched .workspace s.index := by
  intro s q symbols relationships
  have hmax : s.settings.maxLimit < 2 ^ 63 := by decide
  have hfull : s.index.isEmpty = false := by decide +kernel
  have hv : q.violations = [] := by decide +kernel
  have hnew : ∀ k < 2, s.IsNew (q.pageAt 2 k) .workspace := fun _ _ => rfl
  have hbound : ∀ k < 2, k * 2 < 2 ^ 63 := by decide
  have hsymbols : symbols.length = 2 := by decide +kernel
  have hrelationships : relationships.length = 3 := by decide +kernel
  have hliteral : q.literalNames? = none := by decide +kernel
  obtain ⟨hanswer, hpages, -, horder⟩ :=
    pages_are_all_there_is importing.provider importing.resolver s .workspace q hmax hfull hv rfl
  obtain ⟨pages, hanswers, -, -, hall⟩ := hpages 2 2 (by decide) (by decide) hbound hnew
  refine ⟨⟨hmax, hfull, hv, rfl, rfl, hbound, hnew, rfl, hliteral⟩, hsymbols, hrelationships, hanswer rfl,
    ⟨pages, hanswers, hall ?_ ?_⟩, (horder importingIndexed rfl).2 (.inl hliteral)⟩
  · show symbols.length ≤ 4
    omega
  · show relationships.length ≤ 4
    omega

end Search

end CodeAtlas
