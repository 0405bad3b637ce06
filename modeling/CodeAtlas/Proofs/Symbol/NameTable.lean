import CodeAtlas.Proofs.KeyMap
import CodeAtlas.Symbol.NameTable

/-! What a name table finds after definitions came and went.

A table is read name by name (`refs`). Taking out a file goes through the names that
were noted for it, and so takes out every definition of the file as long as no name
was left out of the notes (`Listed`), which no operation does. -/
namespace CodeAtlas.NameTable
open KeyMap

variable {t : NameTable} {name id uri key : String}

/-- The definitions under a lowercase name. -/
def refs (t : NameTable) (key : String) : List SymbolRef := (t.byName.find? key).getD []

/-- The names noted for a file. -/
def notes (t : NameTable) (uri : String) : List String := (t.byFile.find? uri).getD []

/-- The name of every definition is noted for its file. -/
def Listed (t : NameTable) : Prop := ∀ key, ∀ r ∈ t.refs key, key ∈ t.notes r.uri

theorem listed_empty : Listed {} := fun _ _ h => (List.not_mem_nil h).elim

/-! ### Adding -/

theorem find?_addTo {α : Type} (m : KeyMap (List α)) (key : String) (a : α) (k : String) :
    ((addTo m key a).find? k).getD [] = (m.find? k).getD [] ++ if k = key then [a] else [] := by
  rw [addTo, find?_insert]
  by_cases h : k = key <;> simp [h]

theorem refs_insert (t : NameTable) (name id uri key : String) :
    (t.insert name id uri).refs key = t.refs key ++ if key = Text.lowercase name then [⟨uri, id⟩] else [] :=
  find?_addTo t.byName (Text.lowercase name) ⟨uri, id⟩ key

theorem notes_insert (t : NameTable) (name id uri file : String) :
    (t.insert name id uri).notes file = t.notes file ++ if file = uri then [Text.lowercase name] else [] :=
  find?_addTo t.byFile uri (Text.lowercase name) file

theorem Listed.insert (h : t.Listed) (name id uri : String) : (t.insert name id uri).Listed := by
  intro key r hr
  rw [refs_insert] at hr
  rw [notes_insert]
  rcases List.mem_append.mp hr with hr | hr
  · exact List.mem_append_left _ (h key r hr)
  · split at hr
    · rename_i hkey
      rw [List.mem_singleton.mp hr, if_pos rfl, hkey]
      exact List.mem_append_right _ List.mem_cons_self
    · cases hr

/-! ### Taking out a file -/

theorem find?_dropFrom (uri : String) (m : KeyMap (List SymbolRef)) (name k : String) :
    ((dropFrom uri m name).find? k).getD [] =
      if k = name then ((m.find? k).getD []).filter (·.uri != uri) else (m.find? k).getD [] := by
  unfold dropFrom
  cases hm : m.find? name with
  | none => by_cases h : k = name <;> simp [h, hm]
  | some found =>
    dsimp only
    split
    · rename_i hnone
      rw [find?_erase]
      by_cases h : k = name
      · simp [h, hm, List.isEmpty_iff.mp hnone]
      · simp [h]
    · rw [find?_insert]
      by_cases h : k = name <;> simp [h, hm]

/-- Under the names that were gone through, the file is gone. -/
theorem find?_dropAll (uri : String) (names : List String) (m : KeyMap (List SymbolRef)) (k : String) :
    ((names.foldl (dropFrom uri) m).find? k).getD [] =
      if k ∈ names then ((m.find? k).getD []).filter (·.uri != uri) else (m.find? k).getD [] := by
  induction names generalizing m with
  | nil => simp
  | cons name rest ih =>
    rw [List.foldl_cons, ih, find?_dropFrom]
    by_cases hname : k = name <;> simp [hname]

theorem refs_removeFile (h : t.Listed) (uri key : String) :
    (t.removeFile uri).refs key = (t.refs key).filter (·.uri != uri) := by
  -- A name that is not noted for the file has no definition in it.
  have hother : key ∉ t.notes uri → (t.refs key).filter (·.uri != uri) = t.refs key := by
    intro hkey
    refine List.filter_eq_self.mpr fun r hr => bne_iff_ne.mpr ?_
    rintro rfl
    exact hkey (h key r hr)
  unfold removeFile
  cases hnotes : t.byFile.find? uri with
  | none => exact (hother (by simp [notes, hnotes])).symm
  | some names =>
    have hnames : t.notes uri = names := by simp [notes, hnotes]
    have hdrop := find?_dropAll uri names t.byName key
    show ((names.foldl (dropFrom uri) t.byName).find? key).getD [] = _
    rw [hdrop]
    by_cases hkey : key ∈ names
    · rw [if_pos hkey]
      rfl
    · rw [if_neg hkey]
      exact (hother (hnames ▸ hkey)).symm

theorem notes_removeFile (t : NameTable) (uri file : String) :
    (t.removeFile uri).notes file = if file = uri then [] else t.notes file := by
  unfold removeFile
  cases hnotes : t.byFile.find? uri with
  | none => by_cases h : file = uri <;> simp [notes, h, hnotes]
  | some names =>
    show ((t.byFile.erase uri).find? file).getD [] = _
    rw [find?_erase]
    by_cases h : file = uri <;> simp [notes, h]

theorem Listed.removeFile (h : t.Listed) (uri : String) : (t.removeFile uri).Listed := by
  intro key r hr
  rw [refs_removeFile h] at hr
  obtain ⟨hr, hne⟩ := List.mem_filter.mp hr
  rw [notes_removeFile, if_neg (by simpa using hne)]
  exact h key r hr

end CodeAtlas.NameTable
