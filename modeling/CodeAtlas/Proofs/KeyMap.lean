import CodeAtlas.KeyMap
import Mathlib.Data.List.Basic
import Mathlib.Data.List.Perm.Basic
import Mathlib.Data.List.Sort
import Mathlib.Data.String.Basic

/-! The keys and values of maps from texts, and looking them up.

A map whose keys increase is known by what is found in it (`Sorted.ext`), so two of
them can be compared key by key. -/
namespace CodeAtlas.KeyMap

variable {α β : Type} {m m' : KeyMap α} {k key : String} {v value : α}

theorem mem_of_find? (h : m.find? key = some v) : (key, v) ∈ m.entries := by
  obtain ⟨xs, ys, he, -⟩ := List.lookup_eq_some_iff.mp h
  simp [he]

theorem mem_keys_of_find? (h : m.find? key = some v) : key ∈ m.keys :=
  List.mem_map.mpr ⟨_, mem_of_find? h, rfl⟩

theorem mem_values_of_find? (h : m.find? key = some v) : v ∈ m.values :=
  List.mem_map.mpr ⟨_, mem_of_find? h, rfl⟩

theorem mem_keys_of_contains (h : m.contains key = true) : key ∈ m.keys := by
  obtain ⟨v, hv⟩ := Option.isSome_iff_exists.mp h
  exact mem_keys_of_find? hv

theorem mem_insertEntry {e : String × α} {entries : List (String × α)} (h : e ∈ insertEntry key value entries) :
    e = (key, value) ∨ e ∈ entries := by
  induction entries with
  | nil => exact .inl (List.mem_singleton.mp h)
  | cons d rest ih =>
    rw [insertEntry] at h
    split at h
    · exact List.mem_cons.mp h
    · split at h
      · exact (List.mem_cons.mp h).imp_right (List.mem_cons_of_mem d)
      · rcases List.mem_cons.mp h with rfl | h
        · exact .inr List.mem_cons_self
        · exact (ih h).imp_right (List.mem_cons_of_mem d)

theorem mem_keys_insert : k ∈ (m.insert key value).keys ↔ k = key ∨ k ∈ m.keys := by
  show k ∈ (insertEntry key value m.entries).map (·.1) ↔ k = key ∨ k ∈ m.entries.map (·.1)
  induction m.entries with
  | nil => simp [insertEntry]
  | cons d rest ih =>
    rw [insertEntry]
    split
    · simp
    · split
      · rename_i h
        simp [← beq_iff_eq.mp h]
      · simp only [List.map_cons, List.mem_cons, ih]
        tauto

theorem mem_values_insert (h : v ∈ (m.insert key value).values) : v = value ∨ v ∈ m.values := by
  obtain ⟨e, he, rfl⟩ := List.mem_map.mp h
  exact (mem_insertEntry he).imp (fun h => by rw [h]) fun h => List.mem_map_of_mem h

theorem mem_keys_erase : k ∈ (m.erase key).keys ↔ k ∈ m.keys ∧ k ≠ key := by
  simp only [erase, keys, List.mem_map, List.mem_filter, bne_iff_ne, ne_eq]
  constructor
  · rintro ⟨e, ⟨he, hne⟩, rfl⟩
    exact ⟨⟨e, he, rfl⟩, hne⟩
  · rintro ⟨⟨e, he, rfl⟩, hne⟩
    exact ⟨e, ⟨he, hne⟩, rfl⟩

theorem mem_keys_filterKeys {keep : String → Bool} (h : k ∈ (m.filterKeys keep).keys) : k ∈ m.keys ∧ keep k = true := by
  obtain ⟨e, he, rfl⟩ := List.mem_map.mp h
  obtain ⟨he, hk⟩ := List.mem_filter.mp he
  exact ⟨List.mem_map_of_mem he, hk⟩

theorem mem_values_filterKeys {keep : String → Bool} (h : v ∈ (m.filterKeys keep).values) : v ∈ m.values := by
  obtain ⟨e, he, rfl⟩ := List.mem_map.mp h
  exact List.mem_map_of_mem (List.mem_filter.mp he).1

theorem find?_of_keys_eq_nil (h : m.keys = []) : m.find? key = none := by
  rw [find?, List.map_eq_nil_iff.mp h]
  rfl

theorem collect_of_keys_eq_nil {m : KeyMap (List α)} {keep : String → Bool} (h : m.keys = []) : m.collect keep = [] := by
  rw [collect, filterKeys, List.map_eq_nil_iff.mp h]
  rfl

theorem mem_collect {m : KeyMap (List α)} {keep : String → Bool} (h : v ∈ m.collect keep) : ∃ vs ∈ m.values, v ∈ vs := by
  obtain ⟨vs, hvs, hv⟩ := List.mem_flatten.mp h
  exact ⟨vs, mem_values_filterKeys hvs, hv⟩

/-- Only the keys that are there are asked about. -/
theorem collect_eq_of_keys {m : KeyMap (List α)} {keep keep' : String → Bool} (h : ∀ k ∈ m.keys, keep k = keep' k) :
    m.collect keep = m.collect keep' := by
  have hentries : (m.entries.filter fun e => keep e.1) = m.entries.filter fun e => keep' e.1 :=
    List.filter_congr fun e he => h e.1 (List.mem_map_of_mem he)
  rw [collect, collect, filterKeys, filterKeys, hentries]

theorem collect_subset {m : KeyMap (List α)} {keep keep' : String → Bool} (h : ∀ k, keep k = true → keep' k = true) :
    m.collect keep ⊆ m.collect keep' := by
  intro v hv
  obtain ⟨vs, hvs, hv⟩ := List.mem_flatten.mp hv
  obtain ⟨e, he, rfl⟩ := List.mem_map.mp hvs
  obtain ⟨he, hkeep⟩ := List.mem_filter.mp he
  exact List.mem_flatten.mpr ⟨e.2, List.mem_map_of_mem (List.mem_filter.mpr ⟨he, h _ hkeep⟩), hv⟩

/-! ### Looking up -/

theorem lookup_cons (e : String × α) (rest : List (String × α)) (k : String) :
    (e :: rest).lookup k = if k = e.1 then some e.2 else rest.lookup k := by
  rw [List.lookup_cons]
  by_cases h : k = e.1
  · simp [h]
  · rw [if_neg h, beq_eq_false_iff_ne.mpr h]

theorem find?_insert (m : KeyMap α) (key : String) (value : α) (k : String) :
    (m.insert key value).find? k = if k = key then some value else m.find? k := by
  show (insertEntry key value m.entries).lookup k = if k = key then some value else m.entries.lookup k
  induction m.entries with
  | nil => rw [insertEntry, lookup_cons]
  | cons e rest ih =>
    rw [insertEntry]
    split
    · rw [lookup_cons]
    · split
      · rename_i h
        rw [lookup_cons, lookup_cons, ← beq_iff_eq.mp h]
        split <;> rfl
      · rename_i h
        have hne : key ≠ e.1 := fun he => h (beq_iff_eq.mpr he)
        rw [lookup_cons, lookup_cons, ih]
        by_cases hk : k = e.1
        · rw [if_pos hk, if_pos hk, if_neg fun h => hne (h.symm.trans hk)]
        · rw [if_neg hk, if_neg hk]

theorem find?_filterKeys (m : KeyMap α) (keep : String → Bool) (k : String) :
    (m.filterKeys keep).find? k = if keep k then m.find? k else none := by
  show (m.entries.filter fun e => keep e.1).lookup k = if keep k then m.entries.lookup k else none
  induction m.entries with
  | nil => simp
  | cons e rest ih =>
    rw [List.filter_cons, lookup_cons]
    by_cases hk : k = e.1
    · by_cases hkeep : keep e.1 = true
      · rw [hk, if_pos hkeep, if_pos hkeep, if_pos rfl, lookup_cons, if_pos rfl]
      · rw [if_neg hkeep, ih, hk, if_neg hkeep, if_neg hkeep]
    · rw [if_neg hk]
      split
      · rw [lookup_cons, if_neg hk, ih]
      · exact ih

theorem find?_erase (m : KeyMap α) (key k : String) :
    (m.erase key).find? k = if k = key then none else m.find? k := by
  have h : (m.erase key).find? k = _ := find?_filterKeys m (· != key) k
  rw [h]
  by_cases hk : k = key <;> simp [hk]

theorem mem_keys_iff : key ∈ m.keys ↔ (m.find? key).isSome = true := by
  show key ∈ m.entries.map (·.1) ↔ (m.entries.lookup key).isSome = true
  induction m.entries with
  | nil => simp
  | cons e rest ih =>
    rw [List.map_cons, List.mem_cons, lookup_cons, ih]
    by_cases h : key = e.1 <;> simp [h]

theorem find?_eq_none_iff : m.find? key = none ↔ key ∉ m.keys := by
  rw [mem_keys_iff]
  simp

/-! ### Order -/

/-- The keys increase. -/
def Sorted (m : KeyMap α) : Prop := m.keys.Pairwise (· < ·)

theorem sorted_empty : ({} : KeyMap α).Sorted := .nil

theorem sorted_insert (h : m.Sorted) (key : String) (value : α) : (m.insert key value).Sorted := by
  obtain ⟨entries⟩ := m
  show ((insertEntry key value entries).map (·.1)).Pairwise (· < ·)
  induction entries with
  | nil => simp [insertEntry]
  | cons e rest ih =>
    obtain ⟨hfirst, hrest⟩ := List.pairwise_cons.mp h
    rw [insertEntry]
    split
    · rename_i hlt
      refine List.pairwise_cons.mpr ⟨fun k hk => ?_, h⟩
      rcases List.mem_cons.mp hk with rfl | hk
      · exact hlt
      · exact lt_trans hlt (hfirst k hk)
    · rename_i hlt
      split
      · rename_i he
        rw [List.map_cons, beq_iff_eq.mp he]
        exact h
      · rename_i hne
        have hgt : e.1 < key := lt_of_le_of_ne (not_lt.mp hlt) fun he => hne (by simp [he])
        refine List.pairwise_cons.mpr ⟨fun k hk => ?_, ih hrest⟩
        rcases (mem_keys_insert (m := ⟨rest⟩)).mp hk with rfl | hk
        · exact hgt
        · exact hfirst k hk

theorem sorted_filterKeys (h : m.Sorted) (keep : String → Bool) : (m.filterKeys keep).Sorted :=
  h.sublist (List.filter_sublist.map _)

theorem sorted_erase (h : m.Sorted) (key : String) : (m.erase key).Sorted :=
  h.sublist (List.filter_sublist.map _)

/-- Lists in order are the same when they have the same members. -/
theorem eq_of_mem_iff {xs ys : List String} (hx : xs.Pairwise (· < ·)) (hy : ys.Pairwise (· < ·))
    (h : ∀ x, x ∈ xs ↔ x ∈ ys) : xs = ys := by
  have hperm : xs.Perm ys := (List.perm_ext_iff_of_nodup (hx.imp ne_of_lt) (hy.imp ne_of_lt)).mpr h
  exact hperm.eq_of_pairwise (fun _ _ _ _ h h' => absurd h' (lt_asymm h)) hx hy

/-- A map in order is its keys, each with what is found under it. -/
theorem Sorted.flatMap_entries (h : m.Sorted) (f : String → α → List β) :
    m.entries.flatMap (fun e => f e.1 e.2) = m.keys.flatMap fun k => ((m.find? k).map (f k)).getD [] := by
  obtain ⟨entries⟩ := m
  show _ = (entries.map (·.1)).flatMap fun k => ((entries.lookup k).map (f k)).getD []
  induction entries with
  | nil => rfl
  | cons e rest ih =>
    obtain ⟨hfirst, hrest⟩ := List.pairwise_cons.mp h
    rw [List.flatMap_cons, List.map_cons, List.flatMap_cons, lookup_cons, if_pos rfl, ih hrest]
    refine congrArg (f e.1 e.2 ++ ·) (List.flatMap_congr fun k hk => ?_)
    rw [lookup_cons, if_neg (ne_of_gt (hfirst k hk))]

/-- Maps in order are the same when they are looked up alike. -/
theorem Sorted.ext (h : m.Sorted) (h' : m'.Sorted) (heq : ∀ k, m.find? k = m'.find? k) : m = m' := by
  have hkeys : m.keys = m'.keys := eq_of_mem_iff h h' fun k => by rw [mem_keys_iff, mem_keys_iff, heq]
  have hentries : ∀ m : KeyMap α, m.Sorted →
      m.entries = m.keys.flatMap fun k => ((m.find? k).map fun v => [(k, v)]).getD [] := by
    intro m hm
    rw [← hm.flatMap_entries fun k v => [(k, v)], List.flatMap_singleton']
  obtain ⟨entries⟩ := m
  obtain ⟨entries'⟩ := m'
  refine congrArg KeyMap.mk ?_
  have hm := hentries _ h
  have hm' := hentries _ h'
  rw [hkeys] at hm
  exact hm.trans ((List.flatMap_congr fun k _ => by rw [heq k]).trans hm'.symm)

theorem Sorted.collect {m : KeyMap (List α)} (h : m.Sorted) (keep : String → Bool) :
    m.collect keep = m.keys.flatMap fun k => if keep k then (m.find? k).getD [] else [] := by
  have hcollect : m.collect keep = m.entries.flatMap fun e => if keep e.1 then e.2 else [] := by
    show ((m.entries.filter fun e => keep e.1).map (·.2)).flatten = _
    induction m.entries with
    | nil => rfl
    | cons e rest ih =>
      rw [List.filter_cons, List.flatMap_cons, ← ih]
      split <;> rfl
  rw [hcollect, h.flatMap_entries fun k v => if keep k then v else []]
  refine List.flatMap_congr fun k _ => ?_
  cases m.find? k <;> simp

/-- Only what is found under the keys that are kept counts. -/
theorem Sorted.collect_congr {m m' : KeyMap (List α)} {keep : String → Bool} (h : m.Sorted) (h' : m'.Sorted)
    (heq : ∀ k, keep k = true → m.find? k = m'.find? k) : m.collect keep = m'.collect keep := by
  have hkept : m.filterKeys keep = m'.filterKeys keep := by
    refine (sorted_filterKeys h keep).ext (sorted_filterKeys h' keep) fun k => ?_
    rw [find?_filterKeys, find?_filterKeys]
    by_cases hk : keep k = true
    · rw [heq k hk]
    · rw [if_neg hk, if_neg hk]
  rw [KeyMap.collect, KeyMap.collect, hkept]

/-- Keys for which there is nothing do not count. -/
theorem flatMap_eq_of_sorted {xs ys : List String} (hx : xs.Pairwise (· < ·)) (hy : ys.Pairwise (· < ·))
    {f : String → List β} (h : ∀ x, f x ≠ [] → (x ∈ xs ↔ x ∈ ys)) : xs.flatMap f = ys.flatMap f := by
  have hskip : ∀ zs : List String, zs.flatMap f = (zs.filter fun z => !(f z).isEmpty).flatMap f := by
    intro zs
    induction zs with
    | nil => rfl
    | cons z zs ih =>
      rw [List.filter_cons, List.flatMap_cons, ih]
      split
      · rfl
      · rename_i hz
        have hnil : f z = [] := by simpa using hz
        rw [hnil, List.nil_append]
  rw [hskip xs, hskip ys]
  refine congrArg (List.flatMap f) (eq_of_mem_iff (hx.sublist List.filter_sublist) (hy.sublist List.filter_sublist) ?_)
  intro x
  rw [List.mem_filter, List.mem_filter]
  refine and_congr_left fun hf => h x ?_
  simpa using hf

end CodeAtlas.KeyMap
