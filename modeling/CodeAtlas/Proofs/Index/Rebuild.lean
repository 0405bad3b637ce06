import CodeAtlas.Index.MemoryProvider
import CodeAtlas.Proofs.Index.Agreement

/-! An update is as good as a build.

When files of a scope change and the index is told which, the index is afterwards what
a build would make of the scope (`update_eq_rebuild`). Both show the same symbols for
every file (`Shows`), and what shows the same answers alike (`Shows.alike`): files that
came or were healed are put in by the update, files that went or fail drop out, and all
others have the symbols they had. -/
namespace CodeAtlas

namespace MemoryProvider
open KeyMap

/-- All other files are as they were, and fail only if they did. -/
def ChangedOnly (uris : List String) (m m' : MemoryProvider) : Prop :=
  ∀ uri, uri ∉ uris → m'.files.find? uri = m.files.find? uri ∧ (uri ∈ m'.failing ↔ uri ∈ m.failing)

/-- What can happen to a file. -/
inductive Edit where
  | add (uri : String) (symbols : List RawSymbol) (text : String)
  | remove (uri : String)
  | fail (uri : String)
  | heal (uri : String)

def Edit.uri : Edit → String
  | add uri _ _ | remove uri | fail uri | heal uri => uri

def edit (m : MemoryProvider) : Edit → MemoryProvider
  | .add uri symbols text => m.addFile uri symbols text
  | .remove uri => m.removeFile uri
  | .fail uri => m.failFile uri
  | .heal uri => m.healFile uri

theorem edit_changedOnly (m : MemoryProvider) (e : Edit) : ChangedOnly [e.uri] m (m.edit e) := by
  intro uri huri
  have hne : uri ≠ e.uri := fun h => huri (List.mem_singleton.mpr h)
  cases e with
  | add file symbols text => exact ⟨(find?_insert m.files file _ uri).trans (if_neg hne), .rfl⟩
  | remove file => exact ⟨(find?_erase m.files file uri).trans (if_neg hne), .rfl⟩
  | fail file => exact ⟨rfl, List.mem_cons.trans (or_iff_right hne)⟩
  | heal file => exact ⟨rfl, List.mem_filter.trans (and_iff_left (bne_iff_ne.mpr hne))⟩

/-- Edits change the files they are about. -/
theorem edits_changedOnly (edits : List Edit) (m : MemoryProvider) :
    ChangedOnly (edits.map Edit.uri) m (edits.foldl edit m) := by
  induction edits generalizing m with
  | nil => exact fun uri _ => ⟨rfl, .rfl⟩
  | cons e rest ih =>
    intro uri huri
    obtain ⟨hne, hrest⟩ := not_or.mp (mt List.mem_cons.mpr huri)
    obtain ⟨hfile, hfails⟩ := edit_changedOnly m e uri (mt List.mem_singleton.mp hne)
    obtain ⟨hfile', hfails'⟩ := ih (m.edit e) uri hrest
    exact ⟨hfile'.trans hfile, hfails'.trans hfails⟩

theorem ChangedOnly.file {uris : List String} {m m' : MemoryProvider} (h : m.ChangedOnly uris m') {uri : String}
    (huri : uri ∉ uris) : m'.file uri = m.file uri := by
  obtain ⟨hfile, hfails⟩ := h uri huri
  have hcontains : m'.failing.contains uri = m.failing.contains uri := by
    rw [Bool.eq_iff_iff, List.contains_iff_mem, List.contains_iff_mem, hfails]
  unfold MemoryProvider.file
  rw [hcontains, hfile]

end MemoryProvider

namespace Index
open KeyMap

variable {provider : Provider} {ix ix' : Index}

theorem symbolsOf?_of_changedOnly {uris : List String} {m m' : MemoryProvider} (h : m.ChangedOnly uris m')
    {uri : String} (huri : uri ∉ uris) : symbolsOf? m'.provider uri = symbolsOf? m.provider uri := by
  have hraw : m'.provider.documentSymbols uri = m.provider.documentSymbols uri :=
    congrArg (MemoryFile.symbols <$> ·) (h.file huri)
  rw [symbolsOf?, symbolsOf?, analyze, analyze, hraw]

/-- A file that is not there has no analysis, so it does not matter that it is not listed. -/
theorem symbolsOf?_of_not_mem {m : MemoryProvider} {uri : String} (h : uri ∉ m.files.keys) :
    symbolsOf? m.provider uri = none := by
  have hmissing : m.files.find? uri = none := find?_eq_none_iff.mpr h
  have hraw : ∃ cause, m.provider.documentSymbols uri = .error cause := by
    show ∃ cause, (MemoryFile.symbols <$> m.file uri) = .error cause
    rw [MemoryProvider.file, hmissing]
    split <;> exact ⟨_, rfl⟩
  obtain ⟨cause, hcause⟩ := hraw
  rw [symbolsOf?, analyze, hcause]
  rfl

/-- Two indexes that no reader can tell apart. -/
structure Alike (ix ix' : Index) : Prop where
  symbolsInScope : ∀ scope, ix.symbolsInScope scope = ix'.symbolsInScope scope
  relationshipsInScope : ∀ scope, ix.relationshipsInScope scope = ix'.relationshipsInScope scope
  fileSymbols : ∀ uri, ix.fileSymbols uri = ix'.fileSymbols uri
  fileRelationships : ∀ uri, ix.fileRelationships uri = ix'.fileRelationships uri
  symbolsNamed : ∀ names scope, ix.symbolsNamed names scope = ix'.symbolsNamed names scope
  symbolNames : ix.symbolNames = ix'.symbolNames
  counts : ix.summary.counts = ix'.summary.counts

theorem Shows.alike {symbols? : String → Option (List Symbol)} (h : ix.Shows provider symbols?)
    (h' : ix'.Shows provider symbols?) : Alike ix ix' := by
  have hsymbols : ix.symbols = ix'.symbols :=
    h.filed.sorted.ext h'.filed.sorted fun uri => (h.symbols uri).trans (h'.symbols uri).symm
  have hfiles : ix.files = ix'.files :=
    h.filed.files_sorted.ext h'.filed.files_sorted fun uri => by rw [h.filed.counted, h'.filed.counted, hsymbols]
  have hrelationships : ix.relationships = ix'.relationships :=
    h.sorted.ext h'.sorted fun uri => (h.relationships uri).trans (h'.relationships uri).symm
  have hscope : ∀ scope, ix.symbolsInScope scope = ix'.symbolsInScope scope := by
    intro scope
    rw [symbolsInScope, symbolsInScope, hsymbols]
  exact {
    symbolsInScope := hscope
    relationshipsInScope := fun scope => by rw [relationshipsInScope, relationshipsInScope, hrelationships]
    fileSymbols := fun uri => by rw [fileSymbols, fileSymbols, hsymbols]
    fileRelationships := fun uri => by rw [fileRelationships, fileRelationships, hrelationships]
    -- The tables of names may differ, but not in what is found through them.
    symbolsNamed := fun names scope => by rw [h.filed.symbolsNamed, h'.filed.symbolsNamed, hscope]
    symbolNames := by rw [symbolNames, symbolNames, hsymbols]
    counts := by
      show (ix.files.size, ix.symbolCount, ix.relationshipCount) = (ix'.files.size, ix'.symbolCount, ix'.relationshipCount)
      rw [symbolCount, symbolCount, relationshipCount, relationshipCount, hfiles, hsymbols, hrelationships] }

/-- A build of a scope succeeds, and shows all its files as far as they can be analysed. -/
theorem build_memory_shows (m : MemoryProvider) (scope : QueryScope) (ix : Index) :
    let r := (build m.provider m.resolver scope).run ix
    (∃ summary, r.1 = .ok summary ∧ summary.counts = r.2.summary.counts) ∧
      r.2.Shows m.provider fun uri => if scope.contains uri = true then symbolsOf? m.provider uri else none := by
  obtain ⟨hok, hshows⟩ := @build_shows m.provider m.resolver scope _ rfl ix
  refine ⟨hok, ?_⟩
  have hlisted : ∀ uri, (if uri ∈ m.files.keys.filter scope.contains ∧ scope.contains uri = true then
      symbolsOf? m.provider uri else none) = if scope.contains uri = true then symbolsOf? m.provider uri else none := by
    intro uri
    by_cases hkeys : uri ∈ m.files.keys
    · simp [hkeys]
    · simp [symbolsOf?_of_not_mem hkeys]
  exact funext hlisted ▸ hshows

/-- A scope is built, some of its files change, and those are updated: the index
answers as if the scope had been built after the change. -/
theorem update_eq_rebuild (m m' : MemoryProvider) (scope : QueryScope) (uris : List String)
    (hscope : ∀ uri ∈ uris, scope.contains uri = true) (hchanged : m.ChangedOnly uris m') (ix fresh : Index) :
    let first := (build m.provider m.resolver scope).run ix
    let updated := (update m'.provider uris).run first.2
    let rebuilt := (build m'.provider m'.resolver scope).run fresh
    (∃ summary, first.1 = .ok summary) ∧
      (∃ summary, rebuilt.1 = .ok summary ∧ summary.counts = updated.1.counts) ∧
      Alike updated.2 rebuilt.2 := by
  intro first updated rebuilt
  obtain ⟨⟨built, hfirst, -⟩, hshows⟩ := build_memory_shows m scope ix
  obtain ⟨⟨summary, hrebuilt, hcounts⟩, hfresh⟩ := build_memory_shows m' scope fresh
  obtain ⟨hupdate, hupdated⟩ := update_shows hshows.filed m'.provider uris
  have hsame : ∀ uri, (if uri ∈ uris then symbolsOf? m'.provider uri else first.2.symbols.find? uri) =
      if scope.contains uri = true then symbolsOf? m'.provider uri else none := by
    intro uri
    by_cases huri : uri ∈ uris
    · rw [if_pos huri, if_pos (hscope uri huri)]
    · rw [if_neg huri, hshows.symbols, symbolsOf?_of_changedOnly hchanged huri]
  have halike : Alike updated.2 rebuilt.2 := Shows.alike (funext hsame ▸ hupdated) hfresh
  refine ⟨⟨built, hfirst⟩, ⟨summary, hrebuilt, ?_⟩, halike⟩
  exact hcounts.trans (halike.counts.symm.trans hupdate.symm)

/-- Three files with a function each. -/
def threeFiles : MemoryProvider :=
  let function (name : String) : RawSymbol := { name, kind := .name "function", range := default }
  (({} : MemoryProvider).addFile "file:///a.rs" [function "f"] "").addFile "file:///b.rs" [function "g"] ""
    |>.addFile "file:///c.rs" [function "h"] ""

/-- One file is replaced, one goes, one fails and is then healed, and one comes and fails. -/
def mixedEdits : List MemoryProvider.Edit :=
  let function (name : String) : RawSymbol := { name, kind := .name "function", range := default }
  [.add "file:///a.rs" [function "F", function "k"] "", .remove "file:///b.rs", .fail "file:///c.rs",
    .heal "file:///c.rs", .add "file:///d.rs" [function "l"] "", .fail "file:///d.rs"]

theorem mixed_update_eq_rebuild :
    let uris := mixedEdits.map MemoryProvider.Edit.uri
    let edited := mixedEdits.foldl MemoryProvider.edit threeFiles
    let first := (build threeFiles.provider threeFiles.resolver .workspace).run {}
    let updated := (update edited.provider uris).run first.2
    let rebuilt := (build edited.provider edited.resolver .workspace).run {}
    (∀ uri ∈ uris, QueryScope.workspace.contains uri = true) ∧ threeFiles.ChangedOnly uris edited ∧
      first.2.symbolNames = ["f", "g", "h"] ∧ updated.2.symbolNames = ["F", "k", "h"] ∧
      Alike updated.2 rebuilt.2 := by
  intro uris edited first updated rebuilt
  have hscope : ∀ uri ∈ uris, QueryScope.workspace.contains uri = true := by decide +kernel
  have hchanged : threeFiles.ChangedOnly uris edited := MemoryProvider.edits_changedOnly mixedEdits threeFiles
  refine ⟨hscope, hchanged, by decide +kernel, by decide +kernel, ?_⟩
  exact (update_eq_rebuild threeFiles edited .workspace uris hscope hchanged {} {}).2.2

end Index

end CodeAtlas
