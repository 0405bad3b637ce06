import CodeAtlas.Proofs.Index.Requests

/-! What an index shows after its calls, one after the other.

A build or an update decides for every file which symbols it has, and scans all files
that have some for relationships (`Shows`). So its three maps hold the same files
(`Settled`) after any sequence of calls, and the table of names agrees with them. -/
namespace CodeAtlas

/-- The numbers of files, symbols and relationships. -/
def IndexSummary.counts (s : IndexSummary) : Nat × Nat × Nat := (s.fileCount, s.symbolCount, s.relationshipCount)

namespace Index
open KeyMap

variable {provider : Provider} {resolver : Resolver} {scope : QueryScope} {ix ix' : Index}

/-- Symbols, files, names and relationships agree. -/
structure Settled (ix : Index) : Prop extends Filed ix where
  relationships_sorted : ix.relationships.Sorted
  related : ∀ uri, (ix.relationships.find? uri).isSome = (ix.symbols.find? uri).isSome

theorem settled_of_empty (hsymbols : ix.symbols = {}) (hfiles : ix.files = {}) (hnames : ix.names = {})
    (hrelationships : ix.relationships = {}) : ix.Settled where
  toFiled := filed_empty.of_eq hsymbols hfiles hnames
  relationships_sorted := hrelationships ▸ sorted_empty
  related uri := by rw [hrelationships, hsymbols]; rfl

theorem Settled.keys (h : ix.Settled) : ix.relationships.keys = ix.symbols.keys :=
  eq_of_mem_iff h.relationships_sorted h.sorted fun uri => by rw [mem_keys_iff, mem_keys_iff, h.related]

/-- These are the symbols of the files, and the relationships are those of the same files. -/
structure Shows (provider : Provider) (symbols? : String → Option (List Symbol)) (ix : Index) : Prop where
  filed : ix.Filed
  sorted : ix.relationships.Sorted
  symbols : ∀ uri, ix.symbols.find? uri = symbols? uri
  relationships : ∀ uri, ix.relationships.find? uri = (symbols? uri).map fun _ => relationshipsOf provider uri

theorem Shows.settled {symbols? : String → Option (List Symbol)} (h : ix.Shows provider symbols?) : ix.Settled where
  toFiled := h.filed
  relationships_sorted := h.sorted
  related uri := by rw [h.relationships, h.symbols, Option.isSome_map]

theorem Shows.contents {symbols? : String → Option (List Symbol)} (h : ix.Shows provider symbols?) :
    ix.contents.Shows provider symbols? :=
  ⟨h.filed.of_eq rfl rfl rfl, h.sorted, h.symbols, h.relationships⟩

theorem Shows.find?_relationships {symbols? : String → Option (List Symbol)} (h : ix.Shows provider symbols?)
    (uri : String) :
    ix.relationships.find? uri = if uri ∈ ix.files.keys then some (relationshipsOf provider uri) else none := by
  rw [h.relationships, ← h.symbols, h.filed.keys]
  simp only [mem_keys_iff]
  cases ix.symbols.find? uri <;> rfl

/-! ### Building -/

theorem build_error {cause : String} (h : resolver.files scope = .error cause) (ix : Index) :
    (build provider resolver scope).run ix = (.error (.indexBuildFailed scope.describe cause), ix) := by
  unfold build
  rw [h]
  cases resolver.waits <;> rfl

theorem build_run {listed : List String} (h : resolver.files scope = .ok listed) (ix : Index) :
    let uris := listed.filter scope.contains
    let analyses := analyzeAll provider uris
    let r := replace analyses (scan provider (analyses.map FileAnalysis.uri)) (uris.length - analyses.length)
      (ix.countRequests uris.length)
    (build provider resolver scope).run ix = (.ok r.1, r.2) := by
  unfold build
  rw [h]
  cases resolver.waits <;> rfl

/-- A build whose resolver answers succeeds, and the index shows the files that can be analysed. -/
theorem build_shows {listed : List String} (h : resolver.files scope = .ok listed) (ix : Index) :
    let r := (build provider resolver scope).run ix
    (∃ summary, r.1 = .ok summary ∧ summary.counts = r.2.summary.counts) ∧
      r.2.Shows provider fun uri =>
        if uri ∈ listed ∧ scope.contains uri = true then symbolsOf? provider uri else none := by
  rw [build_run h ix]
  let uris := listed.filter scope.contains
  let analyses := analyzeAll provider uris
  have ha : Analyzed provider analyses := analyzed_analyzeAll provider uris
  have hfiled := Filed.replace analyses ha (scan provider (analyses.map FileAnalysis.uri))
    (uris.length - analyses.length) (ix.countRequests uris.length)
  have hsymbols : ∀ uri, (if uri ∈ analyses.map FileAnalysis.uri then symbolsOf? provider uri else none) =
      if uri ∈ listed ∧ scope.contains uri = true then symbolsOf? provider uri else none := by
    intro uri
    have hmem : uri ∈ analyses.map FileAnalysis.uri ↔
        (uri ∈ listed ∧ scope.contains uri = true) ∧ (symbolsOf? provider uri).isSome = true := by
      rw [mem_analyzed_iff, List.mem_filter]
    simp only [hmem]
    cases symbolsOf? provider uri <;> simp
  refine ⟨⟨_, rfl, rfl⟩, hfiled, sorted_scan provider _, fun uri => ?_, fun uri => ?_⟩
  · exact (find?_commitFiles ha _ uri).trans (hsymbols uri)
  · refine (find?_scan provider _ uri).trans ?_
    rw [← hsymbols uri]
    by_cases huri : uri ∈ analyses.map FileAnalysis.uri
    · rw [if_pos huri, if_pos huri]
      obtain ⟨xs, hxs⟩ := Option.isSome_iff_exists.mp (mem_analyzed_iff.mp huri).2
      rw [hxs]
      rfl
    · rw [if_neg huri, if_neg huri]
      rfl

/-- An index that was built shows the files that are listed, as far as they can be analysed. -/
theorem built_shows (h : built provider resolver scope = .ok ix) :
    ∃ listed, resolver.files scope = .ok listed ∧ ix.Shows provider fun uri =>
      if uri ∈ listed ∧ scope.contains uri = true then symbolsOf? provider uri else none := by
  cases hfiles : resolver.files scope with
  | error cause => simp [built, hfiles] at h
  | ok listed =>
    refine ⟨listed, rfl, ?_⟩
    have hcontents : ((build provider resolver scope).run {}).2.contents = ix := by
      rw [build_run hfiles {}]
      simp only [built, hfiles, Except.ok.injEq] at h
      rw [← h]
      let analyses := analyzeAll provider (listed.filter scope.contains)
      have hfilled := contents_commitFiles analyses (countRequests {} (listed.filter scope.contains).length).cleared
      exact congrArg
        (fun filled : Index => { filled with relationships := scan provider (analyses.map FileAnalysis.uri) }) hfilled
    exact hcontents ▸ (@build_shows provider _ _ _ hfiles {}).2.contents

/-! ### Updating -/

/-- After an update the index shows the files of the update as far as they can be
analysed, and all others as before. -/
theorem update_shows (h : ix.Filed) (provider : Provider) (uris : List String) :
    let r := (update provider uris).run ix
    r.1.counts = r.2.summary.counts ∧
      r.2.Shows provider fun uri => if uri ∈ uris then symbolsOf? provider uri else ix.symbols.find? uri := by
  let filed := replaceFiles uris (analyzeAll provider uris) (ix.countRequests uris.length)
  have hcounted : (ix.countRequests uris.length).Filed := h.of_eq rfl rfl rfl
  have hfiled : filed.Filed := hcounted.replaceFiles uris
  have hsymbols : ∀ uri, filed.symbols.find? uri =
      if uri ∈ uris then symbolsOf? provider uri else ix.symbols.find? uri := by
    intro uri
    have hremoved := find?_removeFiles (ix.countRequests uris.length) uris uri
    refine (find?_commitFiles (analyzed_analyzeAll provider uris) _ uri).trans ?_
    rw [hremoved]
    by_cases huri : uri ∈ uris
    · cases hs : symbolsOf? provider uri <;> simp [mem_analyzed_iff, huri, hs]
    · rw [if_neg fun hm => huri (mem_analyzed_iff.mp hm).1, if_neg huri, if_neg huri]
      rfl
  refine ⟨rfl, hfiled.of_eq rfl rfl rfl, ?_, hsymbols, fun uri => ?_⟩
  · exact sorted_filterKeys (sorted_scan provider _) _
  · show ((scan provider filed.files.keys).filterKeys filed.files.contains).find? uri = _
    simp only [find?_filterKeys, find?_scan, KeyMap.contains, mem_keys_iff, hfiled.counted, ← hsymbols]
    cases filed.symbols.find? uri <;> rfl

/-! ### Any number of calls -/

theorem call_settled (call : IndexCall) (h : ix.Settled) : (call.routine.run ix).2.Settled := by
  cases call with
  | build provider resolver scope =>
    have hrun := Routine.run_map (build provider resolver scope) IndexAnswer.built ix
    rw [IndexCall.routine, hrun]
    cases hfiles : resolver.files scope with
    | error cause =>
      rw [build_error hfiles ix]
      exact h
    | ok listed => exact (build_shows hfiles ix).2.settled
  | update provider uris =>
    have hrun := Routine.run_map (update provider uris) IndexAnswer.updated ix
    rw [IndexCall.routine, hrun]
    exact (update_shows h.toFiled provider uris).2.settled
  | clear => exact settled_of_empty rfl rfl rfl rfl

theorem after_settled (calls : List IndexCall) : (after calls).Settled := by
  unfold after
  induction calls using List.reverseRecOn with
  | nil => exact settled_of_empty rfl rfl rfl rfl
  | append_singleton calls call ih =>
    rw [List.foldl_concat]
    exact call_settled call ih

/-- Whatever calls were made, one after the other: the maps of symbols, files and
relationships hold the same files, each once; every file's entry counts its symbols;
the symbols of a file have ids of their own and lie in it; and the table of names
finds exactly the symbols in scope with one of the names, in their order. A build whose
resolver fails changes nothing. -/
theorem calls_keep_agreement (calls : List IndexCall) :
    let ix := after calls
    (ix.symbols.Sorted ∧ ix.files.keys = ix.symbols.keys ∧ ix.relationships.keys = ix.symbols.keys) ∧
      (∀ uri, ix.fileEntry? uri = (ix.symbols.find? uri).map fun xs => { symbolCount := xs.length }) ∧
      (∀ uri, ((ix.fileSymbols uri).map Symbol.id).Nodup ∧ ∀ s ∈ ix.fileSymbols uri, s.location.uri = uri) ∧
      (∀ names scope, ix.symbolsNamed names scope = (ix.symbolsInScope scope).filter fun s =>
        (names.map Text.lowercase).contains (Text.lowercase s.name)) ∧
      (∀ provider resolver scope cause, resolver.files scope = .error cause →
        (build provider resolver scope).run ix = (.error (.indexBuildFailed scope.describe cause), ix)) := by
  intro ix
  have h : ix.Settled := after_settled calls
  refine ⟨⟨h.sorted, h.toFiled.keys, h.keys⟩, h.counted, fun uri => ?_, h.toFiled.symbolsNamed, ?_⟩
  · exact ⟨(h.ofFile_fileSymbols uri).distinct, (h.ofFile_fileSymbols uri).placed⟩
  · exact fun _ _ _ _ hfails => build_error hfails ix

end Index

end CodeAtlas
