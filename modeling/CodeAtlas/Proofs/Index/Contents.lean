import CodeAtlas.Index.Basic
import CodeAtlas.Proofs.Json.Models
import CodeAtlas.Proofs.KeyMap
import CodeAtlas.Proofs.Routine.Run

/-! What an index holds after it was built, updated or cleared.

Readers see the contents of an index and not what it counts or announces
(`contents`). A build that succeeds replaces them by what the provider and the
resolver give for the scope, whatever was there before (`built`). Between builds,
updates and clears only indexed files have symbols or relationships (`Covered`), so an
index without files has nothing to read. -/
namespace CodeAtlas.Index
open KeyMap

variable {provider : Provider} {resolver : Resolver} {scope : QueryScope} {ix : Index}

/-- All that readers see. -/
def contents (ix : Index) : Index := { ix with lastBuild := none, requests := 0, signals := [] }

/-- Delivered. -/
def tidy (ix : Index) : Index := { ix with signals := [] }

/-- Only indexed files have symbols or relationships, and no relationship has a strength. -/
structure Covered (ix : Index) : Prop where
  symbols : ∀ uri ∈ ix.symbols.keys, uri ∈ ix.files.keys
  relationships : ∀ uri ∈ ix.relationships.keys, uri ∈ ix.files.keys
  unrated : ∀ rs ∈ ix.relationships.values, ∀ r ∈ rs, r.IsUnrated

theorem covered_empty : Covered {} := ⟨nofun, nofun, nofun⟩

/-! ### Reading -/

theorem keys_eq_nil_of_isEmpty (h : ix.isEmpty = true) : ix.files.keys = [] := by
  rw [KeyMap.keys, List.isEmpty_iff.mp h]
  rfl

theorem Covered.symbols_keys (hc : ix.Covered) (h : ix.isEmpty = true) : ix.symbols.keys = [] :=
  List.eq_nil_iff_forall_not_mem.mpr fun uri hu => by simpa [keys_eq_nil_of_isEmpty h] using hc.symbols uri hu

theorem Covered.relationships_keys (hc : ix.Covered) (h : ix.isEmpty = true) : ix.relationships.keys = [] :=
  List.eq_nil_iff_forall_not_mem.mpr fun uri hu => by simpa [keys_eq_nil_of_isEmpty h] using hc.relationships uri hu

theorem Covered.fileSymbols_eq_nil (hc : ix.Covered) (h : ix.isEmpty = true) (uri : String) :
    ix.fileSymbols uri = [] := by
  rw [fileSymbols, find?_of_keys_eq_nil (hc.symbols_keys h)]
  rfl

theorem Covered.fileRelationships_eq_nil (hc : ix.Covered) (h : ix.isEmpty = true) (uri : String) :
    ix.fileRelationships uri = [] := by
  rw [fileRelationships, find?_of_keys_eq_nil (hc.relationships_keys h)]
  rfl

theorem Covered.symbolsInScope_eq_nil (hc : ix.Covered) (h : ix.isEmpty = true) (scope : QueryScope) :
    ix.symbolsInScope scope = [] := collect_of_keys_eq_nil (hc.symbols_keys h)

theorem Covered.relationshipsInScope_eq_nil (hc : ix.Covered) (h : ix.isEmpty = true) (scope : QueryScope) :
    ix.relationshipsInScope scope = [] := collect_of_keys_eq_nil (hc.relationships_keys h)

theorem Covered.symbolsNamed_eq_nil (hc : ix.Covered) (h : ix.isEmpty = true) (names : List String)
    (scope : QueryScope) : ix.symbolsNamed names scope = [] := by
  unfold symbolsNamed
  refine List.flatMap_eq_nil_iff.mpr fun e _ => ?_
  show (ix.fileSymbols e.1).filter _ = []
  rw [hc.fileSymbols_eq_nil h, List.filter_nil]

/-- No relationship has a strength. -/
def Unrated (ix : Index) : Prop := ∀ rs ∈ ix.relationships.values, ∀ r ∈ rs, r.IsUnrated

theorem Unrated.inScope (h : ix.Unrated) (scope : QueryScope) : ∀ r ∈ ix.relationshipsInScope scope, r.IsUnrated := by
  intro r hr
  obtain ⟨rs, hrs, hr⟩ := mem_collect hr
  exact h rs hrs r hr

theorem Unrated.ofFile (h : ix.Unrated) (uri : String) : ∀ r ∈ ix.fileRelationships uri, r.IsUnrated := by
  intro r hr
  unfold fileRelationships at hr
  cases hfind : ix.relationships.find? uri with
  | none => simp [hfind] at hr
  | some rs =>
    rw [hfind] at hr
    exact h rs (mem_values_of_find? hfind) r hr

theorem Covered.unrated_inScope (hc : ix.Covered) (scope : QueryScope) :
    ∀ r ∈ ix.relationshipsInScope scope, r.IsUnrated := Unrated.inScope hc.unrated scope

theorem Covered.unrated_ofFile (hc : ix.Covered) (uri : String) : ∀ r ∈ ix.fileRelationships uri, r.IsUnrated :=
  Unrated.ofFile hc.unrated uri

/-! ### Scanning -/

theorem scan_snoc (provider : Provider) (uris : List String) (uri : String) :
    scan provider (uris ++ [uri]) = (scan provider uris).insert uri
      (match provider.documentText uri with
        | .ok text => Imports.relationships uri text
        | .error _ => []) := by
  rw [scan, List.foldl_append]
  rfl

theorem keys_scan (provider : Provider) (uris : List String) : ∀ uri ∈ (scan provider uris).keys, uri ∈ uris := by
  induction uris using List.reverseRecOn with
  | nil => simp [scan, KeyMap.keys]
  | append_singleton uris uri ih =>
    intro k hk
    rw [scan_snoc, mem_keys_insert] at hk
    rcases hk with rfl | hk
    · simp
    · simp [ih k hk]

/-- The relationships a scan finds in a file; a file without text has none. -/
def relationshipsOf (provider : Provider) (uri : String) : List Relationship :=
  match provider.documentText uri with
  | .ok text => Imports.relationships uri text
  | .error _ => []

theorem find?_scan (provider : Provider) (uris : List String) (uri : String) :
    (scan provider uris).find? uri = if uri ∈ uris then some (relationshipsOf provider uri) else none := by
  induction uris using List.reverseRecOn with
  | nil => rfl
  | append_singleton uris u ih =>
    rw [scan_snoc, find?_insert, ih]
    by_cases hlast : uri = u
    · simp [hlast, relationshipsOf]
    · simp [hlast]

theorem sorted_scan (provider : Provider) (uris : List String) : (scan provider uris).Sorted := by
  induction uris using List.reverseRecOn with
  | nil => exact sorted_empty
  | append_singleton uris uri ih =>
    rw [scan_snoc]
    exact sorted_insert ih _ _

theorem unrated_scan (provider : Provider) (uris : List String) :
    ∀ rs ∈ (scan provider uris).values, ∀ r ∈ rs, r.IsUnrated := by
  induction uris using List.reverseRecOn with
  | nil => simp [scan, KeyMap.values]
  | append_singleton uris uri ih =>
    intro rs hrs
    rw [scan_snoc] at hrs
    rcases mem_values_insert hrs with rfl | hrs
    · intro r hr
      split at hr
      · obtain ⟨target, -, rfl⟩ := List.mem_map.mp hr
        rfl
      · cases hr
    · exact ih rs hrs

/-! ### Writing -/

theorem symbols_commitFile (h : ∀ uri ∈ ix.symbols.keys, uri ∈ ix.files.keys) (a : FileAnalysis) :
    ∀ uri ∈ (ix.commitFile a).symbols.keys, uri ∈ (ix.commitFile a).files.keys := by
  intro uri hu
  show uri ∈ (ix.files.insert a.uri _).keys
  rw [mem_keys_insert]
  exact (mem_keys_insert.mp hu).imp_right (h uri)

theorem symbols_commitFiles (h : ∀ uri ∈ ix.symbols.keys, uri ∈ ix.files.keys) (analyses : List FileAnalysis) :
    ∀ uri ∈ (analyses.foldl commitFile ix).symbols.keys, uri ∈ (analyses.foldl commitFile ix).files.keys := by
  induction analyses generalizing ix with
  | nil => exact h
  | cons a rest ih => exact ih (symbols_commitFile h a)

theorem symbols_removeFiles (h : ∀ uri ∈ ix.symbols.keys, uri ∈ ix.files.keys) (uris : List String) :
    ∀ uri ∈ (uris.foldl removeFile ix).symbols.keys, uri ∈ (uris.foldl removeFile ix).files.keys := by
  induction uris generalizing ix with
  | nil => exact h
  | cons u rest ih =>
    refine ih fun uri hu => ?_
    obtain ⟨hu, hne⟩ := mem_keys_erase.mp hu
    exact mem_keys_erase.mpr ⟨h uri hu, hne⟩

/-- What was committed is among the files. -/
theorem files_commitFiles (analyses : List FileAnalysis) (ix : Index) :
    ∀ uri, uri ∈ (analyses.foldl commitFile ix).files.keys ↔ uri ∈ analyses.map FileAnalysis.uri ∨ uri ∈ ix.files.keys := by
  induction analyses generalizing ix with
  | nil => simp
  | cons a rest ih =>
    intro uri
    have hcommit : uri ∈ (ix.commitFile a).files.keys ↔ uri = a.uri ∨ uri ∈ ix.files.keys := mem_keys_insert
    rw [List.foldl_cons, ih, hcommit, List.map_cons, List.mem_cons]
    tauto

theorem relationships_commitFiles (analyses : List FileAnalysis) (ix : Index) :
    (analyses.foldl commitFile ix).relationships = ix.relationships := by
  induction analyses generalizing ix with
  | nil => rfl
  | cons a rest ih => exact ih (ix.commitFile a)

theorem relationships_removeFiles (uris : List String) (ix : Index) :
    (uris.foldl removeFile ix).relationships = ix.relationships := by
  induction uris generalizing ix with
  | nil => rfl
  | cons uri rest ih => exact ih (ix.removeFile uri)

theorem contents_commitFiles (analyses : List FileAnalysis) (ix : Index) :
    (analyses.foldl commitFile ix).contents = analyses.foldl commitFile ix.contents := by
  induction analyses generalizing ix with
  | nil => rfl
  | cons a rest ih => exact ih (ix.commitFile a)

/-! ### Building, updating and clearing -/

/-- The contents of an index that was built over a scope. -/
def built (provider : Provider) (resolver : Resolver) (scope : QueryScope) : Except AtlasError Index :=
  match resolver.files scope with
  | .error cause => .error (.indexBuildFailed scope.describe cause)
  | .ok listed =>
    let analyses := analyzeAll provider (listed.filter scope.contains)
    .ok { analyses.foldl commitFile {} with relationships := scan provider (analyses.map FileAnalysis.uri) }

theorem built_covered (h : built provider resolver scope = .ok ix) : ix.Covered := by
  unfold built at h
  split at h
  · cases h
  · obtain rfl := Except.ok.inj h
    refine ⟨?_, ?_, unrated_scan _ _⟩
    · exact @symbols_commitFiles {} (by simp [KeyMap.keys]) _
    · intro uri hu
      exact (files_commitFiles _ _ uri).mpr (.inl (keys_scan _ _ uri hu))

/-- A build that fails leaves the index as it was; one that succeeds replaces it. -/
theorem build_cases (provider : Provider) (resolver : Resolver) (scope : QueryScope) (ix : Index) :
    let r := (build provider resolver scope).runWith tidy ix
    (∃ e, built provider resolver scope = .error e ∧ r.1 = .error e ∧ r.2 = ix) ∨
    ∃ summary made, built provider resolver scope = .ok made ∧ r.1 = .ok summary ∧ r.2.contents = made := by
  have hwait : (build provider resolver scope).runWith tidy ix =
      (build provider { resolver with waits := false } scope).runWith tidy ix := by
    unfold build
    cases resolver.waits <;> rfl
  rw [hwait]
  simp only [build, built]
  cases hf : resolver.files scope with
  | error cause => exact .inl ⟨_, rfl, rfl, rfl⟩
  | ok listed =>
    refine .inr ⟨_, _, rfl, rfl, ?_⟩
    let uris := listed.filter scope.contains
    let analyses := analyzeAll provider uris
    have hfilled := contents_commitFiles analyses (ix.countRequests uris.length).tidy.cleared
    exact congrArg
      (fun filled : Index => { filled with relationships := scan provider (analyses.map FileAnalysis.uri) }) hfilled

theorem update_covered (provider : Provider) (uris : List String) (h : ix.Covered) :
    ((update provider uris).runWith tidy ix).2.contents.Covered := by
  let filed := replaceFiles uris (analyzeAll provider uris) (ix.countRequests uris.length).tidy
  have hsymbols : ∀ uri ∈ filed.symbols.keys, uri ∈ filed.files.keys :=
    symbols_commitFiles (@symbols_removeFiles (ix.countRequests uris.length).tidy h.symbols uris) _
  have hr : ((update provider uris).runWith tidy ix).2.contents =
      { filed.contents with
        relationships := (scan provider filed.files.keys).filterKeys filed.files.contains } := rfl
  rw [hr]
  refine ⟨hsymbols, fun uri hu => mem_keys_of_contains (mem_keys_filterKeys hu).2, fun rs hrs => ?_⟩
  exact unrated_scan _ _ rs (mem_values_filterKeys hrs)

end CodeAtlas.Index
