import CodeAtlas.Proofs.Symbol.NameTable
import Mathlib.Data.Finset.Card

/-! What a name table holds after a history of changes.

A definition stands from when it is inserted until its file is removed or the table is
cleared (`standing`). The table files the definitions that stand under their lowercase
names, in the order in which they were inserted, and has no name without one (`Holds`).
Each change keeps this, so it is so after every history (`holds_after`). -/
namespace CodeAtlas.NameTable
open KeyMap

inductive Change where
  | insert (name id uri : String)
  | removeFile (uri : String)
  | clear

namespace Change

def apply : Change → NameTable → NameTable
  | insert name id uri, t => t.insert name id uri
  | removeFile uri, t => t.removeFile uri
  | clear, _ => {}

/-- Does the change take out the definitions of a file? -/
def takesOut (file : String) : Change → Bool
  | insert .. => false
  | removeFile uri => file == uri
  | clear => true

end Change

/-- The table after some changes, from an empty one. -/
def after (changes : List Change) : NameTable := changes.foldl (fun t change => change.apply t) {}

/-- A definition under a lowercase name. -/
abbrev Filed := String × SymbolRef

/-- What was inserted and not taken out later, in the order of insertion. -/
def standing : List Change → List Filed
  | [] => []
  | .insert name id uri :: rest =>
    if rest.any (·.takesOut uri) then standing rest else (Text.lowercase name, ⟨uri, id⟩) :: standing rest
  | .removeFile _ :: rest | .clear :: rest => standing rest

/-! ### One more change -/

theorem after_concat (changes : List Change) (change : Change) :
    after (changes ++ [change]) = change.apply (after changes) := by
  rw [after, List.foldl_append]
  rfl

/-- What is left of the definitions after one more change. -/
theorem standing_concat (changes : List Change) (change : Change) :
    standing (changes ++ [change]) =
      ((standing changes).filter fun d => !change.takesOut d.2.uri) ++ standing [change] := by
  induction changes with
  | nil => rfl
  | cons first rest ih =>
    cases first with
    | insert name id uri =>
      simp only [List.cons_append, standing, List.any_append, List.any_cons, List.any_nil, Bool.or_false, ih]
      cases hrest : rest.any (·.takesOut uri) with
      | true => rfl
      | false => cases hlast : change.takesOut uri <;> simp [hlast]
    | removeFile | clear => exact ih

/-! ### What a table holds -/

/-- The names are in order, and none is kept without a definition. -/
structure Tidy (m : KeyMap (List SymbolRef)) : Prop where
  sorted : m.Sorted
  filled : ∀ key, m.find? key ≠ some []

variable {t : NameTable} {filed : List Filed} {m : KeyMap (List SymbolRef)}

theorem tidy_empty : Tidy {} := ⟨sorted_empty, fun _ h => nomatch h⟩

theorem Tidy.addTo (h : Tidy m) (key : String) (r : SymbolRef) : Tidy (NameTable.addTo m key r) := by
  refine ⟨sorted_insert h.sorted _ _, fun k => ?_⟩
  rw [NameTable.addTo, find?_insert]
  split
  · simp
  · exact h.filled k

theorem Tidy.dropFrom (h : Tidy m) (uri name : String) : Tidy (NameTable.dropFrom uri m name) := by
  unfold NameTable.dropFrom
  cases m.find? name with
  | none => exact h
  | some found =>
    dsimp only
    split
    · refine ⟨sorted_erase h.sorted name, fun key => ?_⟩
      rw [find?_erase]
      split
      · simp
      · exact h.filled key
    · rename_i hleft
      refine ⟨sorted_insert h.sorted name _, fun key => ?_⟩
      rw [find?_insert]
      split
      · intro hnone
        exact hleft (List.isEmpty_iff.mpr (Option.some.inj hnone))
      · exact h.filled key

theorem Tidy.dropAll (h : Tidy m) (uri : String) (names : List String) :
    Tidy (names.foldl (NameTable.dropFrom uri) m) := by
  induction names generalizing m with
  | nil => exact h
  | cons name rest ih => exact ih (h.dropFrom uri name)

theorem Tidy.removeFile (h : Tidy t.byName) (uri : String) : Tidy (t.removeFile uri).byName := by
  unfold NameTable.removeFile
  cases t.byFile.find? uri with
  | none => exact h
  | some names => exact h.dropAll uri names

/-- The table holds these definitions and nothing else. -/
structure Holds (t : NameTable) (filed : List Filed) : Prop where
  listed : t.Listed
  tidy : Tidy t.byName
  refs : ∀ key, t.refs key = (filed.filter (·.1 == key)).map Prod.snd

theorem holds_empty : Holds {} [] := ⟨listed_empty, tidy_empty, fun _ => rfl⟩

theorem Holds.insert (h : t.Holds filed) (name id uri : String) :
    (t.insert name id uri).Holds (filed ++ [(Text.lowercase name, ⟨uri, id⟩)]) := by
  refine ⟨h.listed.insert name id uri, h.tidy.addTo _ _, fun key => ?_⟩
  rw [refs_insert, h.refs, List.filter_append, List.map_append]
  by_cases hkey : key = Text.lowercase name
  · simp [hkey]
  · simp [hkey, Ne.symm hkey]

theorem Holds.removeFile (h : t.Holds filed) (uri : String) :
    (t.removeFile uri).Holds (filed.filter fun d => d.2.uri != uri) := by
  refine ⟨h.listed.removeFile uri, h.tidy.removeFile uri, fun key => ?_⟩
  rw [refs_removeFile h.listed, h.refs, List.filter_map, List.filter_filter, List.filter_filter]
  simp only [Function.comp_def, Bool.and_comm]

theorem Holds.apply (h : t.Holds filed) (change : Change) :
    (change.apply t).Holds ((filed.filter fun d => !change.takesOut d.2.uri) ++ standing [change]) := by
  cases change with
  | insert name id uri =>
    have hall : (filed.filter fun d => !(Change.insert name id uri).takesOut d.2.uri) = filed :=
      List.filter_eq_self.mpr fun _ _ => rfl
    rw [hall]
    exact h.insert name id uri
  | removeFile uri =>
    rw [standing, standing, List.append_nil]
    exact h.removeFile uri
  | clear =>
    have hnone : (filed.filter fun d => !Change.clear.takesOut d.2.uri) = [] :=
      List.filter_eq_nil_iff.mpr fun _ _ => Bool.false_ne_true
    rw [hnone]
    exact holds_empty

theorem holds_after (changes : List Change) : (after changes).Holds (standing changes) := by
  induction changes using List.reverseRecOn with
  | nil => exact holds_empty
  | append_singleton changes change ih =>
    rw [after_concat, standing_concat]
    exact ih.apply change

/-- A name is kept exactly if there is a definition under it. -/
theorem Holds.mem_keys_iff (h : t.Holds filed) {key : String} : key ∈ t.byName.keys ↔ key ∈ filed.map Prod.fst := by
  have hfiled : key ∈ filed.map Prod.fst ↔ t.refs key ≠ [] := by
    rw [h.refs]
    simp
  rw [KeyMap.mem_keys_iff, hfiled, NameTable.refs]
  have hfilled := h.tidy.filled key
  cases hfound : t.byName.find? key with
  | none => simp
  | some found => simpa [hfound] using hfilled

theorem Holds.size (h : t.Holds filed) : t.size = (filed.map Prod.fst).toFinset.card := by
  have hkeys : t.byName.keys.toFinset = (filed.map Prod.fst).toFinset := by
    ext key
    rw [List.mem_toFinset, List.mem_toFinset, h.mem_keys_iff]
  have hnodup : t.byName.keys.Nodup := h.tidy.sorted.imp ne_of_lt
  rw [← hkeys, List.toFinset_card_of_nodup hnodup]
  exact (List.length_map _).symm

/-- After every history of changes: a name is looked up to the definitions inserted under it,
whatever its case, and not taken out since, in the order of insertion and as often as they
were inserted; the size is the number of lowercase names with such a definition; and when a
file is removed, every name keeps its definitions in all other files. -/
theorem lookups_are_exact (changes : List Change) :
    let t := after changes
    (∀ name, t.lookup name = ((standing changes).filter (·.1 == Text.lowercase name)).map Prod.snd) ∧
      t.size = ((standing changes).map Prod.fst).toFinset.card ∧
      ∀ uri name, (t.removeFile uri).lookup name = (t.lookup name).filter (·.uri != uri) := by
  intro t
  have h : t.Holds (standing changes) := holds_after changes
  exact ⟨fun name => h.refs _, h.size, fun uri name => refs_removeFile h.listed uri _⟩

end CodeAtlas.NameTable
