import CodeAtlas.Index.MemoryProvider
import CodeAtlas.Proofs.Index.Agreement
import CodeAtlas.Proofs.Routine.Ensures

/-! What calls leave of each other's work when they overlap.

An update writes to the index twice: it puts its files in place, and after a scan it
replaces all relationships (`UpdateSection`). In between the index is free for readers
and for other calls. So a file may be indexed without relationships: the update that
put it in has not come to its second section, or the relationships were replaced last
by an update that had looked at the files before this one was among them. Nothing else
goes wrong (`parts_differ`). The second case outlasts all updates, and then it is the
last section that tells which files are without relationships (`updates_leave`). -/
namespace CodeAtlas.Index
open KeyMap
open CodeAtlas.System (seen)

variable {provider : Provider} {uris : List String} {ix ix' : Index}

/-! ### The sections of an update -/

/-- One section of an update, after sections that found these states. -/
inductive UpdateSection (provider : Provider) (uris : List String) : List Index → Index → Index → Prop
  | count (s : Index) : UpdateSection provider uris [] s (s.countRequests uris.length)
  | files (counted s : Index) :
      UpdateSection provider uris [counted] s (replaceFiles uris (analyzeAll provider uris) s)
  | look (counted filed s : Index) : UpdateSection provider uris [counted, filed] s s
  | relationships (counted filed looked s : Index) (failed quarantined : Nat) :
      UpdateSection provider uris [counted, filed, looked] s
        (replaceRelationships uris (scan provider looked.files.keys) failed quarantined s).2

theorem update_takes {xs : List Index} (h : (update provider uris).Takes xs ix ix') :
    UpdateSection provider uris xs ix ix' := by
  obtain ⟨rfl, rfl⟩ | ⟨counted, _, rfl, hfiles⟩ := Routine.takes_atomic_bind h
  · exact .count ix
  obtain ⟨rfl, rfl⟩ | ⟨filed, _, rfl, hlook⟩ := Routine.takes_atomic_bind hfiles
  · exact .files counted ix
  obtain ⟨rfl, rfl⟩ | ⟨looked, _, rfl, hrelationships⟩ := Routine.takes_atomic_bind hlook
  · exact .look counted filed _
  obtain ⟨rfl, rfl⟩ := Routine.takes_atomic hrelationships
  exact .relationships counted filed looked ix _ _

/-- An update is done after four sections. -/
theorem update_answers {xs : List Index} {summary : IndexSummary} (h : (update provider uris).Answers xs summary) :
    xs.length = 4 := by
  obtain ⟨counted, _, rfl, hfiles⟩ := Routine.answers_atomic_bind h
  obtain ⟨filed, _, rfl, hlook⟩ := Routine.answers_atomic_bind hfiles
  obtain ⟨looked, _, rfl, hrelationships⟩ := Routine.answers_atomic_bind hlook
  obtain ⟨last, rfl, -⟩ := Routine.answers_atomic hrelationships
  rfl

/-- After three sections comes the one that replaces the relationships. -/
theorem UpdateSection.last {xs : List Index} (h : UpdateSection provider uris xs ix ix') (hthree : xs.length = 3) :
    ∃ looked failed quarantined, xs[2]? = some looked ∧
      ix' = (replaceRelationships uris (scan provider looked.files.keys) failed quarantined ix).2 := by
  cases h with
  | relationships counted filed looked _ failed quarantined => exact ⟨looked, failed, quarantined, rfl, rfl⟩
  | _ => cases hthree

theorem mem_files_removeFiles (uris : List String) (ix : Index) (uri : String) :
    uri ∈ (uris.foldl removeFile ix).files.keys ↔ uri ∈ ix.files.keys ∧ uri ∉ uris := by
  induction uris generalizing ix with
  | nil => simp
  | cons file rest ih =>
    have hremove : uri ∈ (ix.removeFile file).files.keys ↔ uri ∈ ix.files.keys ∧ uri ≠ file := mem_keys_erase
    rw [List.foldl_cons, ih, hremove, List.mem_cons, not_or, and_assoc]

/-- Other files stay or are missing as before. -/
theorem mem_files_replaceFiles {uri : String} (huri : uri ∉ uris) :
    uri ∈ (replaceFiles uris (analyzeAll provider uris) ix).files.keys ↔ uri ∈ ix.files.keys := by
  rw [replaceFiles, files_commitFiles, mem_files_removeFiles, and_iff_left huri]
  exact or_iff_right fun hanalyzed => huri (mem_analyzed_iff.mp hanalyzed).1

theorem relationships_replaceFiles (uris : List String) (analyses : List FileAnalysis) (ix : Index) :
    (replaceFiles uris analyses ix).relationships = ix.relationships := by
  rw [replaceFiles, relationships_commitFiles, relationships_removeFiles]

/-- What an update leaves as relationships: those of the files that it saw and that are there. -/
theorem find?_replaceRelationships (indexed : List String) (failed quarantined : Nat) (uri : String) :
    (replaceRelationships uris (scan provider indexed) failed quarantined ix).2.relationships.find? uri =
      if uri ∈ ix.files.keys ∧ uri ∈ indexed then some (relationshipsOf provider uri) else none := by
  show ((scan provider indexed).filterKeys ix.files.contains).find? uri = _
  rw [find?_filterKeys, find?_scan]
  by_cases huri : uri ∈ ix.files.keys
  · simp [KeyMap.contains, mem_keys_iff.mp huri, huri]
  · simp [KeyMap.contains, mt mem_keys_iff.mpr huri, huri]

theorem mem_replaceRelationships {indexed : List String} {failed quarantined : Nat} {uri : String} :
    uri ∈ (replaceRelationships uris (scan provider indexed) failed quarantined ix).2.relationships.keys ↔
      uri ∈ ix.files.keys ∧ uri ∈ indexed := by
  rw [mem_keys_iff, find?_replaceRelationships]
  split <;> simp [*]

/-! ### What readers see -/

/-- The file has a record and relationships, or neither. -/
def Agrees (ix : Index) (uri : String) : Prop := uri ∈ ix.relationships.keys ↔ uri ∈ ix.files.keys

theorem agrees_replace (analyses : List FileAnalysis) (failed : Nat) (uri : String) :
    (replace analyses (scan provider (analyses.map FileAnalysis.uri)) failed ix).2.Agrees uri := by
  show uri ∈ (scan provider (analyses.map FileAnalysis.uri)).keys ↔
    uri ∈ (analyses.foldl commitFile ix.cleared).files.keys
  have hcleared : uri ∉ ix.cleared.files.keys := List.not_mem_nil
  rw [files_commitFiles, or_iff_left hcleared, mem_keys_iff, find?_scan]
  split <;> simp [*]

/-- Nothing is changed, or all files at once. -/
def Renews (ix ix' : Index) : Prop :=
  (ix'.files = ix.files ∧ ix'.relationships = ix.relationships) ∨ ∀ uri, ix'.Agrees uri

theorem build_renews (provider : Provider) (resolver : Resolver) (scope : QueryScope) :
    (build provider resolver scope).Does Renews := by
  refine build_does (fun _ => .inl ⟨rfl, rfl⟩) (fun _ _ => .inl ⟨rfl, rfl⟩) ?_
  rintro analyses _ failed - rfl ix
  exact .inr fun uri => agrees_replace analyses failed uri

/-- Only updates do their work in parts. -/
theorem call_takes {call : IndexCall} {xs : List Index} (h : call.routine.Takes xs ix ix') :
    (∃ provider uris, call = .update provider uris ∧ UpdateSection provider uris xs ix ix') ∨
    (∀ provider uris, call ≠ .update provider uris) ∧ Renews ix ix' := by
  cases call with
  | build provider resolver scope =>
    obtain hbuild | ⟨_, _, _, -, -, hpure⟩ := Routine.takes_bind h
    · exact .inr ⟨nofun, Routine.takes_does (build_renews provider resolver scope) hbuild⟩
    · exact (Routine.not_takes_pure hpure).elim
  | update provider uris =>
    obtain hupdate | ⟨_, _, _, -, -, hpure⟩ := Routine.takes_bind h
    · exact .inl ⟨provider, uris, rfl, update_takes hupdate⟩
    · exact (Routine.not_takes_pure hpure).elim
  | clear =>
    obtain ⟨-, rfl⟩ | ⟨_, _, -, hpure⟩ := Routine.takes_atomic_bind h
    · exact .inr ⟨nofun, .inr fun _ => .rfl⟩
    · exact (Routine.not_takes_pure hpure).elim

/-- An update of the file has put its files in place, and not yet replaced the relationships. -/
def HalfWay (past : List (System.Taken Index IndexCall)) (uri : String) : Prop :=
  ∃ t ∈ past, ∃ provider uris, t.request = .update provider uris ∧ uri ∈ uris ∧
    ((seen past t.call).length = 2 ∨ (seen past t.call).length = 3)

/-- The relationships were last replaced by an update that found the file in the index,
but had not found it when it looked which files to scan. -/
def Missed (past : List (System.Taken Index IndexCall)) (uri : String) : Prop :=
  ∃ xs t ys provider uris looked, past = xs ++ t :: ys ∧ t.request = .update provider uris ∧
    (seen xs t.call)[2]? = some looked ∧ uri ∉ looked.files.keys ∧ uri ∈ t.before.files.keys ∧
    ∀ u ∈ ys, u.after.relationships = u.before.relationships

/-- The file agrees, or an update is to blame. -/
def Explained (past : List (System.Taken Index IndexCall)) (ix : Index) (uri : String) : Prop :=
  ix.Agrees uri ∨ HalfWay past uri ∨ Missed past uri

variable {past : List (System.Taken Index IndexCall)} {t : System.Taken Index IndexCall} {uri : String}

/-- An update stays half way until its last section. -/
theorem HalfWay.snoc (h : HalfWay past uri) (hsame : ∀ u ∈ past, u.call = t.call → u.request = t.request)
    (hearly : ∀ provider uris, t.request = .update provider uris → (seen past t.call).length ≠ 3) :
    HalfWay (past ++ [t]) uri := by
  obtain ⟨u, hu, provider, uris, hrequest, huri, hlength⟩ := h
  refine ⟨u, List.mem_append_left _ hu, provider, uris, hrequest, huri, ?_⟩
  rw [System.seen_snoc]
  split
  · rename_i hcall
    have hthree := hearly provider uris (hsame u hu hcall.symm ▸ hrequest)
    rw [hcall] at hthree
    rw [List.length_append, hlength.resolve_right hthree]
    exact .inr rfl
  · exact hlength

theorem Missed.snoc (h : Missed past uri) (hkept : t.after.relationships = t.before.relationships) :
    Missed (past ++ [t]) uri := by
  obtain ⟨xs, u, ys, provider, uris, looked, rfl, hrequest, hlooked, hnew, hthere, hkeep⟩ := h
  refine ⟨xs, u, ys ++ [t], provider, uris, looked, by simp, hrequest, hlooked, hnew, hthere, fun v hv => ?_⟩
  rcases List.mem_append.mp hv with hv | hv
  · exact hkeep v hv
  · rw [List.mem_singleton.mp hv]
    exact hkept

/-- A section that leaves the file as it is and all relationships. -/
theorem Explained.snoc (h : Explained past t.before uri)
    (hsame : ∀ u ∈ past, u.call = t.call → u.request = t.request)
    (hearly : ∀ provider uris, t.request = .update provider uris → (seen past t.call).length ≠ 3)
    (hfile : uri ∈ t.after.files.keys ↔ uri ∈ t.before.files.keys)
    (hkept : t.after.relationships = t.before.relationships) : Explained (past ++ [t]) t.after uri := by
  obtain h | h | h := h
  · refine .inl ?_
    rw [Agrees, hfile, hkept]
    exact h
  · exact .inr (.inl (h.snoc hsame hearly))
  · exact .inr (.inr (h.snoc hkept))

/-- After a section of an update, each file agrees or is on its way, or was missed. -/
theorem UpdateSection.explained {xs : List Index} (h : Explained past t.before uri)
    (hsame : ∀ u ∈ past, u.call = t.call → u.request = t.request) (hrequest : t.request = .update provider uris)
    (hseen : seen past t.call = xs) (hsection : UpdateSection provider uris xs t.before t.after) :
    Explained (past ++ [t]) t.after uri := by
  obtain ⟨call, request, before, after⟩ := t
  change UpdateSection provider uris xs before after at hsection
  have hearly : xs.length ≠ 3 → ∀ provider uris, request = .update provider uris → (seen past call).length ≠ 3 :=
    fun hne _ _ _ => hseen ▸ hne
  cases hsection with
  | count => exact h.snoc hsame (hearly (by simp)) .rfl rfl
  | look => exact h.snoc hsame (hearly (by simp)) .rfl rfl
  | files counted =>
    by_cases huri : uri ∈ uris
    · refine .inr (.inl ⟨_, List.mem_append_right _ (List.mem_singleton_self _), provider, uris, hrequest, huri, ?_⟩)
      rw [System.seen_snoc, if_pos rfl, hseen]
      exact .inl rfl
    · exact h.snoc hsame (hearly (by simp)) (mem_files_replaceFiles huri) (relationships_replaceFiles uris _ before)
  | relationships counted filed looked _ failed quarantined =>
    by_cases hmissed : uri ∈ before.files.keys ∧ uri ∉ looked.files.keys
    · have hlooked : (seen past call)[2]? = some looked := by rw [hseen]; rfl
      exact .inr (.inr ⟨past, _, [], provider, uris, looked, rfl, hrequest, hlooked, hmissed.2, hmissed.1, nofun⟩)
    · refine .inl (mem_replaceRelationships.trans ?_)
      exact ⟨And.left, fun huri => ⟨huri, not_not.mp fun hnew => hmissed ⟨huri, hnew⟩⟩⟩

/-- However builds, updates and clears are interleaved, whenever a reader looks: the
files with symbols are those with a record, and a file that has a record without
relationships, or relationships without a record, is one of an update that is between
its two writes, or one that the last update to replace the relationships had missed. -/
theorem parts_differ (moves : List (System.Move IndexCall Unit)) :
    let w := history moves
    w.state.files.keys = w.state.symbols.keys ∧
      ∀ uri, (uri ∈ w.state.relationships.keys ↔ uri ∈ w.state.files.keys) ∨
        HalfWay w.past uri ∨ Missed w.past uri := by
  refine ⟨(history_filed moves).keys, ?_⟩
  refine System.run_keeps_taken (I := fun ix past => ∀ uri, Explained past ix uri) ?_ ?_ ?_ moves
  · exact fun uri => .inl (iff_of_false List.not_mem_nil List.not_mem_nil)
  · intro t past h hsame htakes uri
    obtain ⟨provider, uris, hrequest, hsection⟩ | ⟨hother, ⟨hfiles, hkept⟩ | hagree⟩ := call_takes htakes
    · exact hsection.explained (h uri) hsame hrequest rfl
    · have hearly : ∀ provider uris, t.request = .update provider uris → (seen past t.call).length ≠ 3 :=
        fun provider uris hupdate => absurd hupdate (hother provider uris)
      exact (h uri).snoc hsame hearly (by rw [hfiles]) hkept
    · exact .inl (hagree uri)
  · exact fun _ _ _ h => h

/-- One file is indexed and another is added. -/
def addedFile : List (System.Move IndexCall Unit) :=
  let one := ({} : MemoryProvider).addFile "file:///a.rs" [] ""
  let two := one.addFile "file:///b.rs" [] "use std::io;"
  [.start (.build one.provider one.resolver .workspace), .go 0, .go 0, .start (.update two.provider ["file:///b.rs"]),
    .go 1, .go 1]

/-- A reader between the two writes of an update. -/
theorem update_is_seen_half_done :
    let ix := (history addedFile).state
    ix.symbols.keys = ["file:///a.rs", "file:///b.rs"] ∧ ix.files.keys = ["file:///a.rs", "file:///b.rs"] ∧
      ix.relationships.keys = ["file:///a.rs"] := by
  decide +kernel

/-! ### Updates alone -/

/-- Updates that ask one provider. -/
def updates (provider : Provider) : System Index (List String) IndexSummary Unit := ⟨update provider, fun _ => tidy⟩

/-- What the update that took the last section had found when it looked which files to scan. -/
def lastLooked? (past : List (System.Taken Index (List String))) : Option Index :=
  past.getLast?.bind fun t => (seen past t.call)[2]?

/-- Was the file among those that were scanned last? Before the first update it was. -/
def isScanned (past : List (System.Taken Index (List String))) (uri : String) : Bool :=
  (lastLooked? past).all (·.files.contains uri)

/-- What was written last is there, for nothing else writes. -/
theorem updates_contents (provider : Provider) (start : Index) (moves : List (System.Move (List String) Unit)) :
    let w := (updates provider).run start moves
    w.state.contents = ((w.past.getLast?.map System.Taken.after).getD start).contents := by
  refine System.run_keeps (I := fun ix past => ix.contents = ((past.getLast?.map System.Taken.after).getD start).contents)
    rfl (fun uris => Routine.does_any (update provider uris)) ?_ ?_ moves
  · intro t past _ _
    rw [List.getLast?_concat]
    rfl
  · exact fun _ _ _ h => h

/-- When all updates are done, the last section was the last one of its update. -/
theorem last_section {w : System.World Index (List String) IndexSummary} (hw : System.Faithful (updates provider) w)
    (hdone : ∀ c ∈ w.calls, c.rest.answer?.isSome = true) {t : System.Taken Index (List String)}
    (ht : w.past.getLast? = some t) :
    ∃ looked failed quarantined, lastLooked? w.past = some looked ∧
      t.after = (replaceRelationships t.request (scan provider looked.files.keys) failed quarantined t.before).2 := by
  obtain ⟨past, hpast⟩ := List.getLast?_eq_some_iff.mp ht
  have hseen : seen w.past t.call = seen past t.call ++ [t.before] := System.seen_eq_append hpast
  obtain ⟨c, hc, hrequest⟩ := hw.request t (by simp [hpast])
  obtain ⟨summary, hsummary⟩ := Option.isSome_iff_exists.mp (hdone c (List.mem_of_getElem? hc))
  have hanswers := hw.rest t.call c hc
  rw [Routine.eq_done_of_answer? hsummary, hrequest, hseen] at hanswers
  have hthree : (seen past t.call).length = 3 := by simpa using update_answers hanswers
  obtain ⟨looked, failed, quarantined, hlooked, hafter⟩ := (update_takes (hw.taken past t [] hpast)).last hthree
  refine ⟨looked, failed, quarantined, ?_, hafter⟩
  rw [lastLooked?, ht, Option.bind_some, hseen, List.getElem?_append_left (by omega)]
  exact hlooked

/-- Over an index that was built, any updates are made at once, and all of them are
done. Then the relationships of a file are those of its text, unless the update that
wrote last had looked which files to scan before the file was among them; such a file
has none. So nothing is lost exactly if that update had found all files. -/
theorem updates_leave {resolver : Resolver} {scope : QueryScope} {listed : List String}
    (hlisted : resolver.files scope = .ok listed) (ix : Index) (moves : List (System.Move (List String) Unit)) :
    let w := (updates provider).run ((build provider resolver scope).run ix).2 moves
    (∀ c ∈ w.calls, c.rest.answer?.isSome = true) →
    (∀ uri, w.state.relationships.find? uri =
      if uri ∈ w.state.files.keys ∧ isScanned w.past uri = true then some (relationshipsOf provider uri) else none) ∧
    ((∀ uri ∈ w.state.files.keys, w.state.relationships.find? uri = some (relationshipsOf provider uri)) ↔
      ∀ uri ∈ w.state.files.keys, isScanned w.past uri = true) := by
  intro w hdone
  suffices hfind : ∀ uri, w.state.relationships.find? uri =
      if uri ∈ w.state.files.keys ∧ isScanned w.past uri = true then some (relationshipsOf provider uri) else none by
    refine ⟨hfind, forall₂_congr fun uri huri => ?_⟩
    rw [hfind uri]
    simp [huri]
  intro uri
  have hcontents := updates_contents provider ((build provider resolver scope).run ix).2 moves
  have hfiles := congrArg Index.files hcontents
  have hrelationships := congrArg Index.relationships hcontents
  change w.state.files = ((w.past.getLast?.map System.Taken.after).getD _).files at hfiles
  change w.state.relationships = ((w.past.getLast?.map System.Taken.after).getD _).relationships at hrelationships
  rw [hfiles, hrelationships]
  cases hlast : w.past.getLast? with
  | none =>
    have hscanned : isScanned w.past uri = true := by rw [isScanned, lastLooked?, hlast]; rfl
    rw [hscanned]
    simpa using (build_shows hlisted ix).2.find?_relationships uri
  | some t =>
    have hw : System.Faithful (updates provider) w := System.run_faithful _ _ moves
    obtain ⟨looked, failed, quarantined, hlooked, hafter⟩ := last_section hw hdone hlast
    have hscanned : isScanned w.past uri = true ↔ uri ∈ looked.files.keys := by
      rw [isScanned, hlooked, mem_keys_iff]
      rfl
    simp only [hscanned, Option.map_some, Option.getD_some, hafter]
    exact find?_replaceRelationships looked.files.keys failed quarantined uri

/-- Two files that use something. -/
def twoFiles : MemoryProvider :=
  (({} : MemoryProvider).addFile "file:///a.rs" [] "use std::io;").addFile "file:///b.rs" [] "use std::fmt;"

/-- A resolver that does not know the second file yet. -/
def lateResolver : Resolver := { files := fun _ => .ok ["file:///a.rs"] }

/-- The second file is put in by one update while another one scans. -/
def overlapping : List (System.Move (List String) Unit) :=
  [.start ["file:///a.rs"], .start ["file:///b.rs"], .go 0, .go 0, .go 0, .go 1, .go 1, .go 1, .go 1, .go 0]

/-- The second file is put in before the other update looks. -/
def interleaved : List (System.Move (List String) Unit) :=
  [.start ["file:///a.rs"], .start ["file:///b.rs"], .go 0, .go 0, .go 1, .go 1, .go 0, .go 1, .go 1, .go 0]

/-- All updates are done, and the relationships of the second file are lost. -/
theorem overlapping_update_is_lost :
    let w := (updates twoFiles.provider).run ((build twoFiles.provider lateResolver .workspace).run {}).2 overlapping
    (∀ c ∈ w.calls, c.rest.answer?.isSome = true) ∧ w.state.files.keys = ["file:///a.rs", "file:///b.rs"] ∧
      w.state.relationships.keys = ["file:///a.rs"] ∧
      (relationshipsOf twoFiles.provider "file:///b.rs").length = 1 := by
  decide +kernel

theorem interleaved_updates_leave :
    let w := (updates twoFiles.provider).run ((build twoFiles.provider lateResolver .workspace).run {}).2 interleaved
    lateResolver.files .workspace = .ok ["file:///a.rs"] ∧ (∀ c ∈ w.calls, c.rest.answer?.isSome = true) ∧
      w.state.files.keys = ["file:///a.rs", "file:///b.rs"] ∧
      ∀ uri ∈ w.state.files.keys, w.state.relationships.find? uri = some (relationshipsOf twoFiles.provider uri) := by
  intro w
  have hlisted : lateResolver.files .workspace = .ok ["file:///a.rs"] := rfl
  have hdone : ∀ c ∈ w.calls, c.rest.answer?.isSome = true := by decide +kernel
  have hscanned : ∀ uri ∈ w.state.files.keys, isScanned w.past uri = true := by decide +kernel
  refine ⟨hlisted, hdone, by decide +kernel, ?_⟩
  exact (updates_leave hlisted {} interleaved hdone).2.mpr hscanned

end CodeAtlas.Index
