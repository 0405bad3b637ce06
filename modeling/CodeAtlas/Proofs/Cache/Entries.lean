import CodeAtlas.Cache.Lookup
import Mathlib.Data.List.Nodup

/-! What single operations do to the entries of a cache.

An operation that takes entries out filters the list; whether it counts or tells
anything is kept apart from that. Evictions are told one by one, so what a loop of
evictions leaves is what was not told to be gone (`Evicts`). -/
namespace CodeAtlas

namespace CacheEntry

theorem isAt_iff {e : CacheEntry} {store : CacheStore} {key : String} :
    e.isAt store key = true ↔ e.store = store ∧ e.key = key := by
  simp [isAt]

theorem isAt_self (e : CacheEntry) : e.isAt e.store e.key = true := isAt_iff.mpr ⟨rfl, rfl⟩

/-- Where an entry is. -/
def place (e : CacheEntry) : CacheStore × String := (e.store, e.key)

theorem isAt_iff_place {e : CacheEntry} {store : CacheStore} {key : String} :
    e.isAt store key = true ↔ e.place = (store, key) := by
  simp [isAt, place]

end CacheEntry

namespace Cache

variable {c : Cache} {store : CacheStore} {key : String} {e : CacheEntry}

/-! ### Finding -/

theorem mem_of_find? (h : c.find? store key = some e) : e ∈ c.entries := List.mem_of_find?_eq_some h

theorem isAt_of_find? (h : c.find? store key = some e) : e.isAt store key = true :=
  List.find?_some (p := fun d : CacheEntry => d.isAt store key) h

theorem find?_eq_none_iff : c.find? store key = none ↔ ∀ e ∈ c.entries, e.isAt store key = false := by
  simp [find?]

theorem contains_eq_false_iff : c.contains store key = false ↔ ∀ e ∈ c.entries, e.isAt store key = false := by
  simp [contains, find?]

/-- No two entries are in one place. -/
def Placed (c : Cache) : Prop := (c.entries.map CacheEntry.place).Nodup

theorem Placed.eq_of_isAt (h : c.Placed) {d : CacheEntry} (he : e ∈ c.entries) (hd : d ∈ c.entries)
    (hes : e.isAt store key = true) (hds : d.isAt store key = true) : e = d := by
  rw [CacheEntry.isAt_iff_place] at hes hds
  exact List.inj_on_of_nodup_map h he hd (hes.trans hds.symm)

theorem Placed.find?_eq (h : c.Placed) (he : e ∈ c.entries) (hes : e.isAt store key = true) :
    c.find? store key = some e := by
  cases hf : c.find? store key with
  | none =>
    have := find?_eq_none_iff.mp hf e he
    simp [hes] at this
  | some d => rw [h.eq_of_isAt he (mem_of_find? hf) hes (isAt_of_find? hf)]

/-! ### Taking out -/

theorem remove_entries (c : Cache) (store : CacheStore) (key : String) :
    (c.remove store key).entries = c.entries.filter fun e => !e.isAt store key := by
  unfold remove
  split
  · rename_i h
    refine (List.filter_eq_self.mpr fun e he => ?_).symm
    simp [find?_eq_none_iff.mp h e he]
  · rfl

/-- What no removal touches. -/
structure Frame (c c' : Cache) : Prop where
  options : c'.options = c.options
  nextSeq : c'.nextSeq = c.nextSeq
  clock : c'.clock = c.clock
  lastModified : c'.lastModified = c.lastModified
  timer : c'.timer = c.timer

theorem Frame.refl (c : Cache) : Frame c c := ⟨rfl, rfl, rfl, rfl, rfl⟩

theorem Frame.trans {c d f : Cache} (h : Frame c d) (h' : Frame d f) : Frame c f :=
  ⟨h'.options.trans h.options, h'.nextSeq.trans h.nextSeq, h'.clock.trans h.clock,
    h'.lastModified.trans h.lastModified, h'.timer.trans h.timer⟩

theorem remove_frame (c : Cache) (store : CacheStore) (key : String) : Frame c (c.remove store key) := by
  unfold remove
  split <;> exact ⟨rfl, rfl, rfl, rfl, rfl⟩

theorem remove_signals (c : Cache) (store : CacheStore) (key : String) :
    (c.remove store key).signals = c.signals := by
  unfold remove
  split <;> rfl

theorem remove_of_not_contains (h : c.contains store key = false) : c.remove store key = c := by
  have : c.find? store key = none := by simpa [contains] using h
  simp [remove, this]

theorem evict_entries (c : Cache) (store : CacheStore) (key reason : String) :
    (c.evict store key reason).entries = c.entries.filter fun e => !e.isAt store key := by
  unfold evict
  split
  · exact remove_entries c store key
  · rename_i h
    rw [← remove_entries, remove_of_not_contains (by simpa using h)]

theorem evict_frame (c : Cache) (store : CacheStore) (key reason : String) :
    Frame c (c.evict store key reason) := by
  unfold evict
  split
  · obtain ⟨h₁, h₂, h₃, h₄, h₅⟩ := remove_frame c store key
    exact ⟨h₁, h₂, h₃, h₄, h₅⟩
  · exact Frame.refl c

theorem evict_signals (c : Cache) (store : CacheStore) (key reason : String) :
    (c.evict store key reason).signals =
      c.signals ++ if c.contains store key then [.cacheEvicted store key reason] else [] := by
  unfold evict
  split <;> simp [announce, remove_signals]

/-! ### Evictions, told one by one -/

/-- Do these signals tell that the place was vacated? -/
def tellsOf (told : List GraphEvent) (store : CacheStore) (key : String) : Bool :=
  told.any fun
    | .cacheEvicted s k _ => store == s && key == k
    | _ => false

/-- Only evictions took place: what is told to be gone is gone, and nothing else. -/
def Evicts (c c' : Cache) : Prop :=
  ∃ new, c'.signals = c.signals ++ new ∧ c'.entries = c.entries.filter fun e => !tellsOf new e.store e.key

theorem Evicts.refl (c : Cache) : Evicts c c := ⟨[], by simp [tellsOf]⟩

theorem Evicts.trans {c d f : Cache} (h : Evicts c d) (h' : Evicts d f) : Evicts c f := by
  obtain ⟨new, hs, he⟩ := h
  obtain ⟨new', hs', he'⟩ := h'
  refine ⟨new ++ new', by simp [hs', hs], ?_⟩
  rw [he', he, List.filter_filter]
  congr 1
  funext e
  simp [tellsOf, Bool.and_comm]

theorem evict_evicts (c : Cache) (store : CacheStore) (key reason : String) :
    Evicts c (c.evict store key reason) := by
  refine ⟨_, evict_signals c store key reason, ?_⟩
  rw [evict_entries]
  refine List.filter_congr fun e he => ?_
  by_cases hc : c.contains store key
  · simp [hc, tellsOf, CacheEntry.isAt]
  · have := contains_eq_false_iff.mp (by simpa using hc) e he
    simp [hc, tellsOf, this]

theorem publish_evicts (c : Cache) : Evicts c c.publish := ⟨_, rfl, by simp [tellsOf, publish, announce]⟩

/-- What a single eviction does, a loop of evictions does. -/
theorem evictAll_rel {R : Cache → Cache → Prop} (refl : ∀ c, R c c) (trans : ∀ {a b c}, R a b → R b c → R a c)
    (evict : ∀ c store key reason, R c (c.evict store key reason)) (doomed : List (CacheEntry × String))
    (c : Cache) : R c (c.evictAll doomed) := by
  induction doomed generalizing c with
  | nil => exact refl c
  | cons d rest ih => exact trans (evict ..) (ih _)

theorem makeRoom_rel {R : Cache → Cache → Prop} (refl : ∀ c, R c c) (trans : ∀ {a b c}, R a b → R b c → R a c)
    (evict : ∀ c store key reason, R c (c.evict store key reason)) (incoming : Nat)
    (candidates : List CacheEntry) (c : Cache) : R c (makeRoom incoming candidates c) := by
  induction candidates generalizing c with
  | nil => exact refl c
  | cons d rest ih =>
    unfold makeRoom
    split
    · exact refl c
    · exact trans (evict ..) (ih _)

/-- A loop of evictions takes out the entries in these places. -/
theorem evictAll_entries (doomed : List (CacheEntry × String)) (c : Cache) :
    (c.evictAll doomed).entries = c.entries.filter fun e => !doomed.any fun d => e.isAt d.1.store d.1.key := by
  induction doomed generalizing c with
  | nil => simp [evictAll]
  | cons d rest ih =>
    rw [evictAll, List.foldl_cons, ← evictAll, ih, evict_entries, List.filter_filter]
    congr 1
    funext e
    simp [Bool.and_comm]

/-- Of the entries, those that are not doomed are left. -/
theorem mem_evictAll (h : c.Placed) {doomed : List (CacheEntry × String)} (hdoomed : ∀ d ∈ doomed, d.1 ∈ c.entries) :
    e ∈ (c.evictAll doomed).entries ↔ e ∈ c.entries ∧ e ∉ doomed.map Prod.fst := by
  rw [evictAll_entries, List.mem_filter]
  refine and_congr_right fun he => ?_
  simp only [Bool.not_eq_true', List.any_eq_false, Bool.not_eq_true, List.mem_map, not_exists, not_and]
  constructor
  · rintro hnone d hd rfl
    exact Bool.false_ne_true ((hnone d hd).symm.trans d.1.isAt_self)
  · intro hnone d hd
    by_contra hat
    exact hnone d hd (h.eq_of_isAt (hdoomed d hd) he d.1.isAt_self (by simpa using hat))

theorem evictAll_frame (doomed : List (CacheEntry × String)) (c : Cache) : Frame c (c.evictAll doomed) :=
  evictAll_rel Frame.refl Frame.trans evict_frame doomed c

theorem evictAll_evicts (doomed : List (CacheEntry × String)) (c : Cache) : Evicts c (c.evictAll doomed) :=
  evictAll_rel Evicts.refl Evicts.trans evict_evicts doomed c

theorem makeRoom_evicts (incoming : Nat) (candidates : List CacheEntry) (c : Cache) :
    Evicts c (makeRoom incoming candidates c) :=
  makeRoom_rel Evicts.refl Evicts.trans evict_evicts incoming candidates c

theorem makeRoom_frame (incoming : Nat) (candidates : List CacheEntry) (c : Cache) :
    Frame c (makeRoom incoming candidates c) :=
  makeRoom_rel Frame.refl Frame.trans evict_frame incoming candidates c

/-! ### Emptying one store -/

theorem removeAll_entries (doomed : List CacheEntry) (c : Cache) :
    (doomed.foldl (fun c e => c.remove e.store e.key) c).entries =
      c.entries.filter fun e => !doomed.any fun d => e.isAt d.store d.key := by
  induction doomed generalizing c with
  | nil => simp
  | cons d rest ih =>
    rw [List.foldl_cons, ih, remove_entries, List.filter_filter]
    congr 1
    funext e
    simp [Bool.and_comm]

theorem clearStore_entries (store : CacheStore) (c : Cache) :
    (clearStore store c).entries = c.entries.filter fun e => e.store != store := by
  show ((c.entriesOf store).foldl _ c).entries = _
  rw [removeAll_entries]
  refine List.filter_congr fun e he => ?_
  rw [Bool.eq_iff_iff]
  simp only [Bool.not_eq_true', List.any_eq_false, entriesOf, List.mem_filter, bne_iff_ne, beq_iff_eq, ne_eq]
  constructor
  · intro h hs
    exact h e ⟨he, hs⟩ e.isAt_self
  · intro h d ⟨_, hd⟩ hat
    exact h ((CacheEntry.isAt_iff.mp hat).1.trans hd)

end Cache

end CodeAtlas
