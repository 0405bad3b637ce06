import CodeAtlas.Proofs.Index.Contents
import CodeAtlas.Proofs.Symbol.Ingestion
import CodeAtlas.Proofs.Symbol.NameTable

/-! How the symbols of an index are filed.

An index keeps the symbols of a file under the file, counts them in the file's entry,
and notes every name in a table of its own. That the three agree (`Filed`) is kept by
all that writes to an index: a file is taken out before it is put in anew, or it is
put in with the symbols it has already (`Fits`). Hence what the table finds is what a
look at every symbol in scope would find (`Filed.symbolsNamed`). -/
namespace CodeAtlas.Index
open KeyMap

variable {provider : Provider} {ix ix' : Index}

/-- Symbols, files and names agree. -/
structure Filed (ix : Index) : Prop where
  sorted : ix.symbols.Sorted
  files_sorted : ix.files.Sorted
  counted : ∀ uri, ix.files.find? uri = (ix.symbols.find? uri).map fun xs => { symbolCount := xs.length }
  ofFile : ∀ uri xs, ix.symbols.find? uri = some xs → Symbol.OfFile uri xs
  named : ∀ key r, r ∈ ix.names.refs key ↔ ∃ s ∈ ix.fileSymbols r.uri, s.id = r.id ∧ Text.lowercase s.name = key
  listed : ix.names.Listed

/-- Nothing else of an index matters. -/
theorem Filed.of_eq (h : ix.Filed) (hsymbols : ix'.symbols = ix.symbols) (hfiles : ix'.files = ix.files)
    (hnames : ix'.names = ix.names) : ix'.Filed where
  sorted := hsymbols ▸ h.sorted
  files_sorted := hfiles ▸ h.files_sorted
  counted uri := by rw [hfiles, hsymbols]; exact h.counted uri
  ofFile uri xs := by rw [hsymbols]; exact h.ofFile uri xs
  named key r := by rw [hnames, fileSymbols, hsymbols]; exact h.named key r
  listed := hnames ▸ h.listed

theorem filed_empty : Filed {} where
  sorted := sorted_empty
  files_sorted := sorted_empty
  counted _ := rfl
  ofFile _ _ h := by cases h
  named _ _ := ⟨fun h => (List.not_mem_nil h).elim, fun ⟨_, h, _⟩ => (List.not_mem_nil h).elim⟩
  listed := NameTable.listed_empty

theorem Filed.keys (h : ix.Filed) : ix.files.keys = ix.symbols.keys := by
  refine eq_of_mem_iff h.files_sorted h.sorted fun uri => ?_
  rw [mem_keys_iff, mem_keys_iff, h.counted, Option.isSome_map]

theorem Filed.ofFile_fileSymbols (h : ix.Filed) (uri : String) : Symbol.OfFile uri (ix.fileSymbols uri) := by
  unfold fileSymbols
  cases hfind : ix.symbols.find? uri with
  | none => exact Symbol.ofFile_nil uri
  | some xs => exact h.ofFile uri xs hfind

/-! ### Analyses -/

/-- What an analysis gives for a file. -/
def symbolsOf? (provider : Provider) (uri : String) : Option (List Symbol) :=
  (analyze provider uri).toOption.map FileAnalysis.symbols

/-- The analyses are what the provider gives. -/
def Analyzed (provider : Provider) (analyses : List FileAnalysis) : Prop :=
  ∀ a ∈ analyses, analyze provider a.uri = .ok a

theorem analyze_ok {uri : String} {a : FileAnalysis} (h : analyze provider uri = .ok a) :
    a.uri = uri ∧ Symbol.OfFile uri a.symbols := by
  unfold analyze at h
  split at h
  · cases h
  · obtain rfl := Except.ok.inj h
    exact ⟨rfl, ingest_ofFile uri _⟩

theorem mem_analyzeAll {uris : List String} {a : FileAnalysis} :
    a ∈ analyzeAll provider uris ↔ a.uri ∈ uris ∧ analyze provider a.uri = .ok a := by
  simp only [analyzeAll, List.mem_filterMap, Except.toOption]
  constructor
  · rintro ⟨uri, huri, h⟩
    cases hok : analyze provider uri with
    | error e => simp [hok] at h
    | ok b =>
      simp only [hok, Option.some.injEq] at h
      obtain ⟨rfl, -⟩ := analyze_ok hok
      subst h
      exact ⟨huri, hok⟩
  · rintro ⟨huri, h⟩
    exact ⟨a.uri, huri, by rw [h]⟩

theorem analyzed_analyzeAll (provider : Provider) (uris : List String) : Analyzed provider (analyzeAll provider uris) :=
  fun _ h => (mem_analyzeAll.mp h).2

theorem Analyzed.symbolsOf? {analyses : List FileAnalysis} (h : Analyzed provider analyses) {a : FileAnalysis}
    (ha : a ∈ analyses) : symbolsOf? provider a.uri = some a.symbols := by
  rw [Index.symbolsOf?, h a ha]
  rfl

/-- The files that were analysed are those whose analysis succeeds. -/
theorem mem_analyzed_iff {uris : List String} {uri : String} :
    uri ∈ (analyzeAll provider uris).map FileAnalysis.uri ↔ uri ∈ uris ∧ (symbolsOf? provider uri).isSome = true := by
  rw [List.mem_map]
  constructor
  · rintro ⟨a, ha, rfl⟩
    exact ⟨(mem_analyzeAll.mp ha).1, by rw [(analyzed_analyzeAll provider uris).symbolsOf? ha]; rfl⟩
  · rintro ⟨huri, hsome⟩
    cases hok : analyze provider uri with
    | error e => simp [symbolsOf?, hok, Except.toOption] at hsome
    | ok a =>
      obtain ⟨rfl, -⟩ := analyze_ok hok
      exact ⟨a, mem_analyzeAll.mpr ⟨huri, hok⟩, rfl⟩

/-! ### Putting files in -/

theorem find?_commitFile (ix : Index) (a : FileAnalysis) (uri : String) :
    (ix.commitFile a).symbols.find? uri = if uri = a.uri then some a.symbols else ix.symbols.find? uri :=
  find?_insert ix.symbols a.uri a.symbols uri

theorem fileSymbols_commitFile (ix : Index) (a : FileAnalysis) (uri : String) :
    (ix.commitFile a).fileSymbols uri = if uri = a.uri then a.symbols else ix.fileSymbols uri := by
  rw [fileSymbols, find?_commitFile, fileSymbols]
  split <;> rfl

theorem mem_refs_insertAll {symbols : List Symbol} {uri key : String} {t : NameTable} {r : SymbolRef} :
    r ∈ (symbols.foldl (fun t s => t.insert s.name s.id uri) t).refs key ↔
      r ∈ t.refs key ∨ r.uri = uri ∧ ∃ s ∈ symbols, s.id = r.id ∧ Text.lowercase s.name = key := by
  induction symbols generalizing t with
  | nil => simp
  | cons s rest ih =>
    have hnew : r ∈ (if key = Text.lowercase s.name then [(⟨uri, s.id⟩ : SymbolRef)] else []) ↔
        r.uri = uri ∧ s.id = r.id ∧ Text.lowercase s.name = key := by
      by_cases hkey : key = Text.lowercase s.name
      · rw [if_pos hkey, List.mem_singleton]
        exact ⟨fun h => by rw [h]; exact ⟨rfl, rfl, hkey.symm⟩, fun ⟨hfile, hid, _⟩ => by rw [hid, ← hfile]⟩
      · rw [if_neg hkey]
        exact ⟨fun h => (List.not_mem_nil h).elim, fun h => absurd h.2.2.symm hkey⟩
    rw [List.foldl_cons, ih, NameTable.refs_insert, List.mem_append, hnew, List.exists_mem_cons_iff, or_assoc,
      ← and_or_left]

theorem listed_insertAll {symbols : List Symbol} {uri : String} {t : NameTable} (h : t.Listed) :
    (symbols.foldl (fun t s => t.insert s.name s.id uri) t).Listed := by
  induction symbols generalizing t with
  | nil => exact h
  | cons s rest ih => exact ih (h.insert s.name s.id uri)

/-- The file is not there, or it is there with the same symbols. -/
def Fits (ix : Index) (a : FileAnalysis) : Prop := ∀ xs, ix.symbols.find? a.uri = some xs → xs = a.symbols

theorem Filed.commitFile {a : FileAnalysis} (h : ix.Filed) (hfits : ix.Fits a) (ha : Symbol.OfFile a.uri a.symbols) :
    (ix.commitFile a).Filed where
  sorted := sorted_insert h.sorted a.uri a.symbols
  files_sorted := sorted_insert h.files_sorted a.uri _
  counted uri := by
    rw [find?_commitFile]
    show (ix.files.insert a.uri { symbolCount := a.symbols.length }).find? uri = _
    rw [find?_insert, h.counted uri]
    split <;> rfl
  ofFile uri xs hxs := by
    rw [find?_commitFile] at hxs
    split at hxs
    · rename_i huri
      rw [huri, ← Option.some.inj hxs]
      exact ha
    · exact h.ofFile uri xs hxs
  named key r := by
    show r ∈ (a.symbols.foldl (fun t s => t.insert s.name s.id a.uri) ix.names).refs key ↔ _
    rw [mem_refs_insertAll, h.named, fileSymbols_commitFile]
    by_cases huri : r.uri = a.uri
    · -- What was there of the file is there again.
      rw [if_pos huri, huri]
      refine ⟨fun hr => hr.elim ?_ And.right, fun hr => .inr ⟨rfl, hr⟩⟩
      rintro ⟨s, hs, hr⟩
      unfold fileSymbols at hs
      cases hfind : ix.symbols.find? a.uri with
      | none => simp [hfind] at hs
      | some xs =>
        rw [hfind] at hs
        exact ⟨s, hfits xs hfind ▸ hs, hr⟩
    · rw [if_neg huri]
      exact or_iff_left fun hr => huri hr.1
  listed := listed_insertAll h.listed

theorem Analyzed.fits_commitFile {a b : FileAnalysis} {rest : List FileAnalysis} (h : Analyzed provider (a :: rest))
    (hb : b ∈ rest) (hfits : ix.Fits b) : (ix.commitFile a).Fits b := by
  intro xs hxs
  rw [find?_commitFile] at hxs
  split at hxs
  · rename_i huri
    have ha := h.symbolsOf? List.mem_cons_self
    have hb := h.symbolsOf? (List.mem_cons_of_mem a hb)
    rw [huri, ha] at hb
    exact (Option.some.inj hxs).symm.trans (Option.some.inj hb)
  · exact hfits xs hxs

/-- A file that is put in twice is put in with the same symbols. -/
theorem Filed.commitFiles {analyses : List FileAnalysis} (h : ix.Filed) (ha : Analyzed provider analyses)
    (hfits : ∀ a ∈ analyses, ix.Fits a) : (analyses.foldl Index.commitFile ix).Filed := by
  induction analyses generalizing ix with
  | nil => exact h
  | cons a rest ih =>
    have hcommit := h.commitFile (hfits a List.mem_cons_self) (analyze_ok (ha a List.mem_cons_self)).2
    refine ih hcommit (fun b hb => ha b (List.mem_cons_of_mem a hb)) fun b hb => ?_
    exact ha.fits_commitFile hb (hfits b (List.mem_cons_of_mem a hb))

theorem find?_commitFiles {analyses : List FileAnalysis} (ha : Analyzed provider analyses) (ix : Index) (uri : String) :
    (analyses.foldl Index.commitFile ix).symbols.find? uri =
      if uri ∈ analyses.map FileAnalysis.uri then symbolsOf? provider uri else ix.symbols.find? uri := by
  induction analyses generalizing ix with
  | nil => simp
  | cons a rest ih =>
    rw [List.foldl_cons, ih (fun b hb => ha b (List.mem_cons_of_mem a hb)), find?_commitFile]
    by_cases hrest : uri ∈ rest.map FileAnalysis.uri
    · rw [if_pos hrest, if_pos (by exact List.mem_cons_of_mem _ hrest)]
    · by_cases huri : uri = a.uri
      · rw [if_neg hrest, if_pos huri, if_pos (by simp [huri]), huri, ha.symbolsOf? List.mem_cons_self]
      · rw [if_neg hrest, if_neg huri, if_neg (by simpa [huri] using hrest)]

/-! ### Taking files out -/

theorem find?_removeFile (ix : Index) (file uri : String) :
    (ix.removeFile file).symbols.find? uri = if uri = file then none else ix.symbols.find? uri :=
  find?_erase ix.symbols file uri

theorem fileSymbols_removeFile (ix : Index) (file uri : String) :
    (ix.removeFile file).fileSymbols uri = if uri = file then [] else ix.fileSymbols uri := by
  rw [fileSymbols, find?_removeFile, fileSymbols]
  split <;> rfl

theorem Filed.removeFile (h : ix.Filed) (file : String) : (ix.removeFile file).Filed where
  sorted := sorted_erase h.sorted file
  files_sorted := sorted_erase h.files_sorted file
  counted uri := by
    rw [find?_removeFile]
    show (ix.files.erase file).find? uri = _
    rw [find?_erase, h.counted uri]
    split <;> rfl
  ofFile uri xs hxs := by
    rw [find?_removeFile] at hxs
    split at hxs
    · cases hxs
    · exact h.ofFile uri xs hxs
  named key r := by
    show r ∈ (ix.names.removeFile file).refs key ↔ _
    rw [NameTable.refs_removeFile h.listed, List.mem_filter, h.named, fileSymbols_removeFile]
    by_cases huri : r.uri = file <;> simp [huri]
  listed := h.listed.removeFile file

theorem Filed.removeFiles (h : ix.Filed) (uris : List String) : (uris.foldl Index.removeFile ix).Filed := by
  induction uris generalizing ix with
  | nil => exact h
  | cons uri rest ih => exact ih (h.removeFile uri)

theorem find?_removeFiles (ix : Index) (uris : List String) (uri : String) :
    (uris.foldl Index.removeFile ix).symbols.find? uri = if uri ∈ uris then none else ix.symbols.find? uri := by
  induction uris generalizing ix with
  | nil => simp
  | cons file rest ih =>
    rw [List.foldl_cons, ih, find?_removeFile]
    by_cases hrest : uri ∈ rest <;> by_cases huri : uri = file <;> simp [hrest, huri]

/-! ### Sections -/

theorem Filed.replace (analyses : List FileAnalysis) (ha : Analyzed provider analyses)
    (relationships : KeyMap (List Relationship)) (failed : Nat) (ix : Index) :
    (replace analyses relationships failed ix).2.Filed := by
  have hcleared : ix.cleared.Filed := filed_empty.of_eq rfl rfl rfl
  have hfilled := hcleared.commitFiles ha fun a _ xs hxs => by cases hxs
  exact hfilled.of_eq rfl rfl rfl

theorem Filed.replaceFiles (h : ix.Filed) (uris : List String) :
    (replaceFiles uris (analyzeAll provider uris) ix).Filed := by
  refine (h.removeFiles uris).commitFiles (analyzed_analyzeAll provider uris) fun a ha xs hxs => ?_
  rw [find?_removeFiles, if_pos (mem_analyzeAll.mp ha).1] at hxs
  cases hxs

/-! ### Names -/

theorem find?_gather (refs : List SymbolRef) (m : KeyMap (List String)) (uri : String) :
    ((refs.foldl (fun m r => NameTable.addTo m r.uri r.id) m).find? uri).getD [] =
      (m.find? uri).getD [] ++ (refs.filter (·.uri == uri)).map SymbolRef.id := by
  induction refs generalizing m with
  | nil => simp
  | cons r rest ih =>
    rw [List.foldl_cons, ih, NameTable.find?_addTo, List.filter_cons]
    by_cases h : r.uri = uri
    · simp [h]
    · simp [h, Ne.symm h]

theorem sorted_gather (refs : List SymbolRef) {m : KeyMap (List String)} (h : m.Sorted) :
    (refs.foldl (fun m r => NameTable.addTo m r.uri r.id) m).Sorted := by
  induction refs generalizing m with
  | nil => exact h
  | cons r rest ih => exact ih (sorted_insert h _ _)

/-- Is the symbol called by one of the names, whatever their case? -/
def isCalled (names : List String) (s : Symbol) : Bool := (names.map Text.lowercase).contains (Text.lowercase s.name)

/-- A symbol is wanted if it is in scope and called by one of the names. -/
theorem Filed.wanted_iff (h : ix.Filed) (names : List String) (scope : QueryScope) {uri : String} {s : Symbol}
    (hs : s ∈ ix.fileSymbols uri) :
    (∃ r ∈ names.flatMap ix.names.lookup, r.uri = uri ∧ scope.contains r.uri = true ∧ r.id = s.id) ↔
      scope.contains uri = true ∧ isCalled names s = true := by
  simp only [isCalled, List.mem_flatMap, List.contains_iff_mem, List.mem_map]
  constructor
  · rintro ⟨r, ⟨n, hn, hr⟩, rfl, hscope, hid⟩
    obtain ⟨s', hs', hid', hname⟩ := (h.named _ r).mp hr
    -- Ids are distinct within a file.
    obtain rfl := List.inj_on_of_nodup_map (h.ofFile_fileSymbols r.uri).distinct hs' hs (hid'.trans hid)
    exact ⟨hscope, n, hn, hname.symm⟩
  · rintro ⟨hscope, n, hn, hname⟩
    refine ⟨⟨uri, s.id⟩, ⟨n, hn, ?_⟩, rfl, hscope, rfl⟩
    exact (h.named _ _).mpr ⟨s, hs, rfl, hname.symm⟩

/-- What the table gives for the names, file by file. -/
def wanted (ix : Index) (names : List String) (scope : QueryScope) : KeyMap (List String) :=
  ((names.flatMap ix.names.lookup).filter fun r => scope.contains r.uri).foldl
    (fun m r => NameTable.addTo m r.uri r.id) {}

theorem sorted_wanted (ix : Index) (names : List String) (scope : QueryScope) : (ix.wanted names scope).Sorted :=
  sorted_gather _ sorted_empty

/-- The symbols of a file with one of the names, if the file is in scope. -/
def called (ix : Index) (names : List String) (scope : QueryScope) (uri : String) : List Symbol :=
  if scope.contains uri then (ix.fileSymbols uri).filter (isCalled names) else []

theorem Filed.filter_wanted (h : ix.Filed) (names : List String) (scope : QueryScope) (uri : String) :
    (ix.fileSymbols uri).filter (fun s => (((ix.wanted names scope).find? uri).getD []).contains s.id) =
      ix.called names scope uri := by
  have hids : ∀ s ∈ ix.fileSymbols uri, (((ix.wanted names scope).find? uri).getD []).contains s.id =
      (scope.contains uri && isCalled names s) := by
    intro s hs
    rw [Bool.eq_iff_iff, List.contains_iff_mem, Bool.and_eq_true, ← h.wanted_iff names scope hs, wanted, find?_gather]
    simp [KeyMap.find?, and_assoc]
  rw [List.filter_congr hids]
  cases hscope : scope.contains uri <;> simp [called, hscope]

theorem Filed.filter_symbolsInScope (h : ix.Filed) (names : List String) (scope : QueryScope) :
    (ix.symbolsInScope scope).filter (isCalled names) = ix.symbols.keys.flatMap (ix.called names scope) := by
  rw [symbolsInScope, h.sorted.collect, List.filter_flatMap]
  refine List.flatMap_congr fun uri _ => ?_
  show List.filter _ (if scope.contains uri then ix.fileSymbols uri else []) = _
  by_cases hcontains : scope.contains uri <;> simp [called, hcontains]

theorem Filed.symbolsNamed_eq (h : ix.Filed) (names : List String) (scope : QueryScope) :
    ix.symbolsNamed names scope = (ix.wanted names scope).keys.flatMap (ix.called names scope) := by
  show (ix.wanted names scope).entries.flatMap (fun e => (ix.fileSymbols e.1).filter fun s => e.2.contains s.id) = _
  rw [(sorted_wanted ix names scope).flatMap_entries fun uri ids => (ix.fileSymbols uri).filter fun s => ids.contains s.id]
  refine List.flatMap_congr fun uri _ => ?_
  rw [← h.filter_wanted names scope uri]
  cases (ix.wanted names scope).find? uri <;> simp

/-- What the table of names finds is what is found among all symbols in scope. -/
theorem Filed.symbolsNamed (h : ix.Filed) (names : List String) (scope : QueryScope) :
    ix.symbolsNamed names scope = (ix.symbolsInScope scope).filter (isCalled names) := by
  rw [h.symbolsNamed_eq, h.filter_symbolsInScope]
  refine flatMap_eq_of_sorted (sorted_wanted ix names scope) h.sorted fun uri huri => ?_
  -- A file in which something is found has symbols, some of which are wanted.
  rw [← h.filter_wanted names scope uri] at huri
  obtain ⟨s, hs⟩ := List.exists_mem_of_ne_nil _ huri
  obtain ⟨hs, hid⟩ := List.mem_filter.mp hs
  rw [mem_keys_iff, mem_keys_iff]
  refine iff_of_true ?_ ?_
  · cases hfind : (ix.wanted names scope).find? uri with
    | none => simp [hfind] at hid
    | some ids => rfl
  · unfold fileSymbols at hs
    cases hfind : ix.symbols.find? uri with
    | none => simp [hfind] at hs
    | some xs => rfl

end CodeAtlas.Index
