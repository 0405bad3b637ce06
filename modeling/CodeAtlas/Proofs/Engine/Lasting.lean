import CodeAtlas.Proofs.Engine.Calls
import CodeAtlas.Proofs.Graph.Parts

/-! What the caches of an engine may keep.

A value that is kept may be told at any later time until what derives from the index is
dropped. It is the answer an engine without caches gives (`Told`), or the question was
asked when the index was empty, and a query has filled the index since. Answers of an
index without files are always nothing, which is why no other answer can grow old
(`Lasts`). -/
namespace CodeAtlas

/-- What a read asks for. A graph is asked for through its query. -/
inductive Question where
  | query (q : GraphQuery) (scope : QueryScope)
  | symbols (uri : String)
  | relationships (uri : String)

/-- Graph data when nothing is remembered. -/
def GraphQuery.freshGraph (provider : Provider) (resolver : Resolver) (limit : Int) (ix : Index) (q : GraphQuery)
    (scope : QueryScope) : Except AtlasError GraphData := do
  let r ← q.freshAnswer provider resolver limit ix scope
  let filled ← ix.filledFor provider resolver scope
  return GraphData.ofParts r.symbols (filled.relationshipsInScope scope ++ r.relationships)

/-! ### Filling an index -/

namespace Index

variable {provider : Provider} {resolver : Resolver} {scope : QueryScope} {ix ix' : Index}

/-- As it is, or filled. -/
def Follows (provider : Provider) (resolver : Resolver) (scope : QueryScope) (ix ix' : Index) : Prop :=
  ix' = ix ∨ ix.filledFor provider resolver scope = .ok ix'

theorem Follows.eq (h : Follows provider resolver scope ix ix') (hfull : ix.isEmpty = false) : ix' = ix := by
  rcases h with h | h
  · exact h
  · rw [filledFor_of_not_isEmpty hfull] at h
    exact (Except.ok.inj h).symm

/-- To fill it again makes no difference. -/
theorem Follows.filledFor (h : Follows provider resolver scope ix ix') :
    ix'.filledFor provider resolver scope = ix.filledFor provider resolver scope := by
  cases hix : ix.isEmpty with
  | false => rw [h.eq hix]
  | true =>
    cases hix' : ix'.isEmpty with
    | true => exact filledFor_of_isEmpty hix hix'
    | false =>
      rcases h with rfl | h
      · rfl
      · rw [filledFor_of_not_isEmpty hix', h]

end Index

namespace GraphQuery

variable {provider : Provider} {resolver : Resolver} {limit : Int} {ix ix' : Index} {q : GraphQuery} {scope : QueryScope}

theorem freshGraph_of_filledFor (h : ix'.filledFor provider resolver scope = ix.filledFor provider resolver scope) :
    q.freshGraph provider resolver limit ix' scope = q.freshGraph provider resolver limit ix scope := by
  rw [freshGraph, freshGraph, h, freshAnswer_of_filledFor h]

end GraphQuery

/-! ### Answers that last -/

section Lasting

variable {β : Type} {early early' : Prop} {fresh : Index → Except AtlasError β} {nothing v : β} {ix ix' : Index}

/-- The answer when nothing is remembered, or nothing if the question came too early
and the index has been filled since. -/
def Told (early : Prop) (fresh : Index → Except AtlasError β) (nothing : β) (ix : Index) (v : β) : Prop :=
  fresh ix = .ok v ∨ (early ∧ ix.isEmpty = false ∧ v = nothing)

/-- A question that did not come too early is answered with what there is. -/
theorem Told.eq {a : β} (h : Told early fresh nothing ix v) (hlate : ¬early) (hfresh : fresh ix = .ok a) : v = a :=
  Except.ok.inj ((h.resolve_right fun h => hlate h.1).symm.trans hfresh)

/-- A value that may be told now and after the index was filled. -/
structure Lasts (early : Prop) (fresh : Index → Except AtlasError β) (nothing : β) (ix : Index) (v : β) : Prop where
  told : Told early fresh nothing ix v
  nothing : ix.isEmpty = true → early ∧ v = nothing

/-- What an index without files does not tell apart. -/
def Blank (fresh : Index → Except AtlasError β) : Prop :=
  ∀ ix ix' : Index, ix.Covered → ix'.Covered → ix.isEmpty = true → ix'.isEmpty = true → fresh ix' = fresh ix

theorem Lasts.mono (himp : early → early') (h : Lasts early fresh nothing ix v) : Lasts early' fresh nothing ix v :=
  ⟨h.told.imp_right fun h => ⟨himp h.1, h.2⟩, fun hix => ⟨himp (h.nothing hix).1, (h.nothing hix).2⟩⟩

/-- A value lasts while an index without files is filled. -/
theorem Lasts.fill (hblank : Blank fresh) (hc : ix.Covered) (hc' : ix'.Covered) (hix : ix.isEmpty = true)
    (h : Lasts early fresh nothing ix v) : Lasts early fresh nothing ix' v := by
  obtain ⟨hearly, hv⟩ := h.nothing hix
  refine ⟨?_, fun _ => ⟨hearly, hv⟩⟩
  cases hix' : ix'.isEmpty with
  | false => exact .inr ⟨hearly, hix', hv⟩
  | true =>
    rcases h.told with hfresh | ⟨-, hfull, -⟩
    · left
      rw [hblank ix ix' hc hc' hix hix', hfresh]
    · simp [hix] at hfull

/-- What is told by an index that was filled for it lasts from then on. -/
theorem Told.lasts {provider : Provider} {resolver : Resolver} {scope : QueryScope}
    (h : Told early fresh nothing ix v) (hfollows : ix.Follows provider resolver scope ix')
    (hfresh : fresh ix' = fresh ix) (himp : early → early') (hnothing : ix'.isEmpty = true → early' ∧ v = nothing) :
    Lasts early' fresh nothing ix' v := by
  refine ⟨?_, hnothing⟩
  rcases h with h | ⟨hearly, hfull, hv⟩
  · exact .inl (hfresh.trans h)
  · exact .inr ⟨himp hearly, by rw [hfollows.eq hfull]; exact hfull, hv⟩

end Lasting

/-! ### What may be kept -/

section Keeping

variable {c : Collaborators} {limit : Int} {early early' : List Question} {ix ix' : Index} {q : GraphQuery}
  {scope : QueryScope} {key : String}

/-- A result kept for a query in a scope. -/
def LastingResult (c : Collaborators) (limit : Int) (early : List Question) (ix : Index) (key : String)
    (r : QueryResult) : Prop :=
  ∀ q scope, key = q.cacheKey scope →
    Lasts (.query q scope ∈ early) (q.freshAnswer c.provider c.resolver limit · scope) {} ix r.plain

/-- Graph data kept for a query in a scope. -/
def LastingGraph (c : Collaborators) (limit : Int) (early : List Question) (ix : Index) (key : String)
    (data : GraphData) : Prop :=
  ∀ q scope, key = q.cacheKey scope →
    Lasts (.query q scope ∈ early) (q.freshGraph c.provider c.resolver limit · scope) {} ix data

/-- A value in one of the stores, if it can be read. -/
def LastingValue (c : Collaborators) (limit : Int) (early : List Question) (ix : Index) (key : String) (data : Json) :
    CacheStore → Prop
  | .symbols => ∀ v, decode? data = some v → Lasts (.symbols key ∈ early) (fun ix => .ok (ix.fileSymbols key)) [] ix v
  | .relationships =>
    ∀ v, decode? data = some v → Lasts (.relationships key ∈ early) (fun ix => .ok (ix.fileRelationships key)) [] ix v
  | .queryResult => ∀ v, decode? data = some v → LastingResult c limit early ix key v
  | .graphData => ∀ v, decode? data = some v → LastingGraph c limit early ix key v
  | .layout | .references => True

theorem blank_freshAnswer : Blank (q.freshAnswer c.provider c.resolver limit · scope) :=
  fun _ _ _ _ h h' => GraphQuery.freshAnswer_of_filledFor (Index.filledFor_of_isEmpty h h')

theorem blank_freshGraph : Blank (q.freshGraph c.provider c.resolver limit · scope) :=
  fun _ _ _ _ h h' => GraphQuery.freshGraph_of_filledFor (Index.filledFor_of_isEmpty h h')

theorem blank_fileSymbols (uri : String) : Blank fun ix => .ok (ix.fileSymbols uri) :=
  fun _ _ hc hc' h h' => congrArg Except.ok ((hc'.fileSymbols_eq_nil h' uri).trans (hc.fileSymbols_eq_nil h uri).symm)

theorem blank_fileRelationships (uri : String) : Blank fun ix => .ok (ix.fileRelationships uri) :=
  fun _ _ hc hc' h h' =>
    congrArg Except.ok ((hc'.fileRelationships_eq_nil h' uri).trans (hc.fileRelationships_eq_nil h uri).symm)

/-- More questions came early, and the index is the same or was without files before. -/
structure Moves (early early' : List Question) (ix ix' : Index) : Prop where
  early : early ⊆ early'
  covered : ix.Covered
  covered' : ix'.Covered
  index : ix' = ix ∨ ix.isEmpty = true

theorem Moves.lasts {β : Type} {fresh : Index → Except AtlasError β} {nothing v : β} {question : Question}
    (hm : Moves early early' ix ix') (hblank : Blank fresh) (h : Lasts (question ∈ early) fresh nothing ix v) :
    Lasts (question ∈ early') fresh nothing ix' v := by
  refine .mono (fun hq => hm.early hq) ?_
  rcases hm.index with rfl | hix
  · exact h
  · exact h.fill hblank hm.covered hm.covered' hix

theorem Moves.result {r : QueryResult} (hm : Moves early early' ix ix') (h : LastingResult c limit early ix key r) :
    LastingResult c limit early' ix' key r :=
  fun q scope hkey => hm.lasts blank_freshAnswer (h q scope hkey)

theorem Moves.value {data : Json} {place : CacheStore} (hm : Moves early early' ix ix')
    (h : LastingValue c limit early ix key data place) : LastingValue c limit early' ix' key data place := by
  cases place with
  | symbols => exact fun v hv => hm.lasts (blank_fileSymbols key) (h v hv)
  | relationships => exact fun v hv => hm.lasts (blank_fileRelationships key) (h v hv)
  | queryResult => exact fun v hv => hm.result (h v hv)
  | graphData => exact fun v hv q scope hkey => hm.lasts blank_freshGraph (h v hv q scope hkey)
  | layout => trivial
  | references => trivial

/-- All that is kept may be told. -/
structure Sound (c : Collaborators) (early : List Question) (e : Engine) : Prop where
  covered : e.search.index.contents.Covered
  results : ∀ p ∈ e.search.results.entries,
    LastingResult c e.search.settings.limit early e.search.index.contents p.1 p.2
  values : ∀ place key data, e.cache.Holds place key data →
    LastingValue c e.search.settings.limit early e.search.index.contents key data place

variable {e e' : Engine}

theorem Sound.adds {results : List (String × QueryResult)} {values : List (CacheStore × String × Json)}
    (hs : Sound c early e) (h : Engine.Adds e e' ix results values)
    (hm : Moves early early' e.search.index.contents ix)
    (hresults : ∀ p ∈ results, LastingResult c e.search.settings.limit early' ix p.1 p.2)
    (hvalues : ∀ p ∈ values, LastingValue c e.search.settings.limit early' ix p.2.1 p.2.2 p.1) :
    Sound c early' e' := by
  refine ⟨by rw [h.index]; exact hm.covered', fun p hp => ?_, fun place key data hd => ?_⟩ <;>
    rw [h.index, h.settings]
  · exact (h.results p hp).elim (fun hp => hm.result (hs.results p hp)) (hresults p)
  · exact (h.values place key data hd).elim (fun hd => hm.value (hs.values _ _ _ hd)) (hvalues (place, key, data))

theorem Sound.keeps (hs : Sound c early e) (h : Engine.Keeps e e') (hsub : early ⊆ early') : Sound c early' e' :=
  hs.adds h ⟨hsub, hs.covered, hs.covered, .inl rfl⟩ (fun _ hp => (List.not_mem_nil hp).elim)
    fun _ hp => (List.not_mem_nil hp).elim

/-- One more value is kept. -/
theorem Sound.stores {place : CacheStore} {data : Json} (hs : Sound c early e)
    (h : Engine.Adds e e' e.search.index.contents [] [(place, key, data)]) (hsub : early ⊆ early')
    (hvalue : LastingValue c e.search.settings.limit early' e.search.index.contents key data place) :
    Sound c early' e' := by
  refine hs.adds h ⟨hsub, hs.covered, hs.covered, .inl rfl⟩ (fun _ hp => (List.not_mem_nil hp).elim) fun p hp => ?_
  rw [List.mem_singleton.mp hp]
  exact hvalue

theorem sound_drops (hc : ix.Covered) (h : Engine.Drops e e' ix) (early : List Question) : Sound c early e' := by
  refine ⟨by rw [h.index]; exact hc, fun p hp => ?_, fun place key data hd => ?_⟩
  · rw [h.results] at hp
    cases hp
  · have hplace := h.values place key data hd
    cases place with
    | layout | references => trivial
    | symbols | relationships | queryResult | graphData => exact absurd (by decide) hplace

end Keeping

end CodeAtlas
