import CodeAtlas.Proofs.Cache.Lookup
import CodeAtlas.Proofs.Routine.Ensures

/-! Which values a cache holds, whatever else there is to an entry.

All operations but setting a value only let go of values (`Shrinks`), and a lookup
returns a value that was held. -/
namespace CodeAtlas.Cache

variable {c c' d : Cache} {store : CacheStore} {key : String}

/-- There is an entry with this value. -/
def Holds (c : Cache) (store : CacheStore) (key : String) (data : Json) : Prop :=
  ∃ e ∈ c.entries, e.store = store ∧ e.key = key ∧ e.data = data

/-- No value is held that was not held before. -/
def Shrinks (c c' : Cache) : Prop := ∀ store key data, c'.Holds store key data → c.Holds store key data

/-- Delivered. -/
def tidy (c : Cache) : Cache := { c with signals := [] }

theorem Shrinks.refl (c : Cache) : Shrinks c c := fun _ _ _ h => h

theorem Shrinks.trans (h : Shrinks c d) (h' : Shrinks d c') : Shrinks c c' := fun s k v hc => h s k v (h' s k v hc)

theorem shrinks_of_subset (h : c'.entries ⊆ c.entries) : Shrinks c c' := fun _ _ _ ⟨e, he, hd⟩ => ⟨e, h he, hd⟩

theorem shrinks_remove (c : Cache) (store : CacheStore) (key : String) : Shrinks c (c.remove store key) :=
  shrinks_of_subset (by rw [remove_entries]; exact List.filter_sublist.subset)

theorem shrinks_evict (c : Cache) (store : CacheStore) (key reason : String) : Shrinks c (c.evict store key reason) :=
  shrinks_of_subset (by rw [evict_entries]; exact List.filter_sublist.subset)

theorem shrinks_evictAll (doomed : List (CacheEntry × String)) (c : Cache) : Shrinks c (c.evictAll doomed) :=
  evictAll_rel Shrinks.refl Shrinks.trans shrinks_evict doomed c

theorem shrinks_touch (c : Cache) (store : CacheStore) (key : String) : Shrinks c (c.touch store key) := by
  rintro s k v ⟨e, he, rfl, rfl, rfl⟩
  obtain ⟨d, hd, rfl⟩ := List.mem_map.mp he
  refine ⟨d, hd, ?_⟩
  split <;> exact ⟨rfl, rfl, rfl⟩

theorem shrinks_clear (place : Option CacheStore) (c : Cache) : Shrinks c (clear place c) := by
  cases place with
  | none => exact shrinks_of_subset (List.nil_subset _)
  | some store =>
    refine shrinks_of_subset ?_
    show (clearStore store c).entries ⊆ c.entries
    rw [clearStore_entries]
    exact List.filter_sublist.subset

/-- Nothing is left in a store that was cleared. -/
theorem not_holds_clearStore {data : Json} : ¬ (clearStore store c).Holds store key data := by
  rintro ⟨e, he, hs, -⟩
  rw [clearStore_entries] at he
  simpa [hs] using (List.mem_filter.mp he).2

/-- What is held after a value was set: that value, or what was held before. -/
theorem holds_set {place : CacheStore} {name : String} {data value : Json} {dependencies : List String}
    (h : (set place name value dependencies c).Holds store key data) :
    c.Holds store key data ∨ (store = place ∧ key = name ∧ data = value) := by
  have hroom : Shrinks c (roomFor place name value c) :=
    (shrinks_remove c place name).trans (makeRoom_rel Shrinks.refl Shrinks.trans shrinks_evict _ _ _)
  obtain ⟨e, he, rfl, rfl, rfl⟩ := h
  rw [set_eq] at he
  rcases List.mem_append.mp he with he | he
  · exact .inl (hroom _ _ _ ⟨e, he, rfl, rfl, rfl⟩)
  · rw [List.mem_singleton.mp he]
    exact .inr ⟨rfl, rfl, rfl⟩

/-! ### Lookups -/

theorem shrinks_beginLookup (c : Cache) : Shrinks c (beginLookup store key c).2 := by
  unfold beginLookup
  split
  · exact .refl c
  · split
    · exact shrinks_evict c store key "expired"
    · exact .refl c

theorem shrinks_endLookup (seq : Nat) (stale : Bool) (c : Cache) : Shrinks c (endLookup store key seq stale c).2 := by
  unfold endLookup
  split
  · exact .refl c
  · rename_i e _
    split
    · exact .refl c
    · split
      · exact shrinks_evict c store key "stale"
      · exact shrinks_touch c e.store e.key

theorem shrinks_get (store : CacheStore) (key : String) : (get store key).Does Shrinks :=
  get_does Shrinks.refl store key shrinks_beginLookup shrinks_endLookup

/-- A value that is found was held, wherever the lookup takes place. -/
theorem holds_of_get {v : Json} (h : ((get store key).runWith tidy c).1 = some v) : c.Holds store key v := by
  rw [get, Routine.runWith_bind, Routine.runWith_atomic] at h
  cases hf : (beginLookup store key c).1 with
  | none =>
    rw [hf] at h
    cases h
  | some found =>
    obtain ⟨e, he, -, hc⟩ := beginLookup_some hf
    rw [hf, hc, Routine.runWith_bind] at h
    generalize hs : ((isStale found.cachedAt found.dependencies).runWith tidy (tidy c)) = p at h
    have hentries : p.2.entries = c.entries := by
      rw [← hs]
      exact Routine.runWith_does tidy (isStale_does (R := fun a b : Cache => b.entries = a.entries) (fun _ => rfl) _ _)
        (fun _ => rfl) (fun h h' => h'.trans h) (fun _ => rfl) (tidy c)
    obtain ⟨e', he', -, -, rfl⟩ := endLookup_some h
    obtain ⟨hstore, hkey⟩ := CacheEntry.isAt_iff.mp (isAt_of_find? he')
    exact ⟨e', hentries ▸ mem_of_find? he', hstore, hkey, rfl⟩

theorem shrinks_getAs {α : Type} [Wire α] (store : CacheStore) (key : String) :
    (getAs store key : Routine Cache (Option α)).Does Shrinks :=
  Routine.does_bind (shrinks_get store key) fun _ => trivial

theorem holds_of_getAs {α : Type} [Wire α] {v : α}
    (h : ((getAs store key : Routine Cache (Option α)).runWith tidy c).1 = some v) :
    ∃ data, c.Holds store key data ∧ decode? data = some v := by
  rw [getAs, Routine.runWith_bind] at h
  obtain ⟨data, hdata, hv⟩ := Option.bind_eq_some_iff.mp h
  exact ⟨data, holds_of_get hdata, hv⟩

/-! ### What is known of all values -/

variable {V : CacheStore → String → Json → Prop} {C : Cache → Prop}

/-- All values that are held are as `V` has it. -/
def HoldsOnly (V : CacheStore → String → Json → Prop) (c : Cache) : Prop :=
  ∀ store key data, c.Holds store key data → V store key data

theorem HoldsOnly.shrinks (h : HoldsOnly V c) (hs : Shrinks c c') : HoldsOnly V c' :=
  fun store key data hd => h store key data (hs store key data hd)

theorem HoldsOnly.set (h : HoldsOnly V c) {data : Json} (hv : V store key data) (dependencies : List String) :
    HoldsOnly V (set store key data dependencies c) := by
  intro store' key' data' hd
  obtain hd | ⟨rfl, rfl, rfl⟩ := holds_set hd
  · exact h _ _ _ hd
  · exact hv

/-- Whatever happens while a lookup is under way, what it finds is as all values are. -/
theorem get_ensures (V : CacheStore → String → Json → Prop) (store : CacheStore) (key : String) :
    (get store key).Ensures (HoldsOnly V) C fun found => ∀ data, found = some data → V store key data := by
  have hfirst : (Routine.atomic (beginLookup store key)).Ensures (HoldsOnly V) C fun _ => True :=
    Routine.ensures_atomic fun c hc _ => ⟨hc.shrinks (shrinks_beginLookup c), trivial⟩
  refine Routine.ensures_bind hfirst fun found _ => ?_
  cases found with
  | none => exact fun _ h => by cases h
  | some found =>
    have hstale : (isStale found.cachedAt found.dependencies).Ensures (HoldsOnly V) C fun _ => True :=
      (isStale_does Shrinks.refl _ _).ensures fun c c' hs hc => hc.shrinks hs
    refine Routine.ensures_bind hstale fun stale _ => Routine.ensures_atomic fun c hc _ => ?_
    refine ⟨hc.shrinks (shrinks_endLookup found.seq stale c), fun data h => ?_⟩
    obtain ⟨e, he, -, -, rfl⟩ := endLookup_some h
    obtain ⟨hstore, hkey⟩ := CacheEntry.isAt_iff.mp (isAt_of_find? he)
    exact hc store key e.data ⟨e, mem_of_find? he, hstore, hkey, rfl⟩

theorem getAs_ensures {α : Type} [Wire α] (V : CacheStore → String → Json → Prop) (store : CacheStore) (key : String) :
    (getAs store key : Routine Cache (Option α)).Ensures (HoldsOnly V) C
      fun found => ∀ v, found = some v → ∃ data, V store key data ∧ decode? data = some v := by
  refine Routine.ensures_bind (get_ensures V store key) fun found hfound v hv => ?_
  obtain ⟨data, hdata, hv⟩ := Option.bind_eq_some_iff.mp hv
  exact ⟨data, hfound data hdata, hv⟩

end CodeAtlas.Cache
