import CodeAtlas.Proofs.Cache.Requests
import Mathlib

/-! The counters of a cache agree with its entries and its announcements.

Every elementary step keeps the books (`Accounted`): the size and the number of the
entries are what the counters say, no two entries are in one place, and entries are
numbered apart, below the next number. So the counters never run out when an entry
is removed, in the middle of a section either. The evictions counted are those told
since everything was cleared last (`evictionsSinceStart`). -/
namespace CodeAtlas

/-- Does the signal tell of an eviction? -/
def GraphEvent.isEviction : GraphEvent → Bool
  | cacheEvicted .. => true
  | _ => false

namespace Cache

structure Accounted (c : Cache) : Prop where
  placed : c.Placed
  total : c.stats.totalSize = (c.entries.map CacheEntry.size).sum
  count : c.stats.entryCount = c.entries.length
  numbered : (c.entries.map CacheEntry.seq).Nodup
  below : ∀ e ∈ c.entries, e.seq < c.nextSeq

/-- What a section told. -/
def told (before after : Cache) : List GraphEvent := after.signals.drop before.signals.length

/-- The evictions told since the counters started over last, oldest section first. -/
def evictionsSinceStart (past : List (System.Taken Cache CacheRequest)) : Nat :=
  past.foldl (fun n t =>
    (if t.request.startsOver then 0 else n) + (told t.before t.after).countP GraphEvent.isEviction) 0

variable {c c' : Cache} {store : CacheStore} {key : String}

/-! ### The books -/

/-- The entry in a place, and all entries in other places. -/
theorem Placed.perm_of_find? (h : c.Placed) {e : CacheEntry} (hf : c.find? store key = some e) :
    c.entries.Perm (e :: c.entries.filter fun e => !e.isAt store key) := by
  simp only [Placed, find?] at h hf
  generalize c.entries = entries at h hf
  induction entries with
  | nil => cases hf
  | cons a rest ih =>
    rw [List.map_cons, List.nodup_cons] at h
    cases ha : a.isAt store key with
    | true =>
      simp only [List.find?_cons, ha, Option.some.injEq] at hf
      have hrest : ∀ d ∈ rest, d.isAt store key = false := by
        intro d hd
        by_contra hne
        have hplace : d.place = a.place :=
          (CacheEntry.isAt_iff_place.mp (by simpa using hne)).trans (CacheEntry.isAt_iff_place.mp ha).symm
        exact h.1 (List.mem_map.mpr ⟨d, hd, hplace⟩)
      rw [← hf, List.filter_cons_of_neg (by simp [ha]), List.filter_eq_self.mpr (by simpa using hrest)]
    | false =>
      simp only [List.find?_cons, ha] at hf
      rw [List.filter_cons_of_pos (by simp [ha])]
      exact ((ih h.2 hf).cons a).trans (.swap e a _)

/-- What the counters are made of, the entry in one place and the rest. -/
theorem Accounted.split (h : c.Accounted) {e : CacheEntry} (hf : c.find? store key = some e) :
    c.stats.totalSize = e.size + ((c.entries.filter fun e => !e.isAt store key).map CacheEntry.size).sum ∧
      c.stats.entryCount = (c.entries.filter fun e => !e.isAt store key).length + 1 := by
  have hp := h.placed.perm_of_find? hf
  rw [h.total, h.count, (hp.map CacheEntry.size).sum_nat, hp.length_eq, List.map_cons, List.sum_cons,
    List.length_cons]
  exact ⟨rfl, rfl⟩

/-- Nothing is subtracted that was not counted. -/
theorem Accounted.covers (h : c.Accounted) {e : CacheEntry} (he : e ∈ c.entries) :
    e.size ≤ c.stats.totalSize ∧ 0 < c.stats.entryCount := by
  obtain ⟨htotal, hcount⟩ := h.split (h.placed.find?_eq he e.isAt_self)
  omega

theorem Accounted.remove (h : c.Accounted) (store : CacheStore) (key : String) : (c.remove store key).Accounted := by
  cases hf : c.find? store key with
  | none => simpa [Cache.remove, hf] using h
  | some e =>
    obtain ⟨htotal, hcount⟩ := h.split hf
    have hsub := List.filter_sublist (l := c.entries) (p := fun e => !e.isAt store key)
    simp only [Cache.remove, hf]
    refine ⟨(hsub.map _).nodup h.placed, ?_, ?_, (hsub.map _).nodup h.numbered, fun d hd => h.below d (hsub.mem hd)⟩
    · show c.stats.totalSize - e.size = ((c.entries.filter fun e => !e.isAt store key).map CacheEntry.size).sum
      omega
    · show c.stats.entryCount - 1 = (c.entries.filter fun e => !e.isAt store key).length
      omega

theorem Accounted.evict (h : c.Accounted) (store : CacheStore) (key reason : String) :
    (c.evict store key reason).Accounted := by
  unfold Cache.evict
  split
  · have := h.remove store key
    exact ⟨this.placed, this.total, this.count, this.numbered, this.below⟩
  · exact h

theorem Accounted.insert (h : c.Accounted) {e : CacheEntry} (free : c.contains e.store e.key = false)
    (seq : e.seq = c.nextSeq) : Accounted { c.add e with nextSeq := c.nextSeq + 1 } := by
  refine ⟨?_, ?_, ?_, ?_, ?_⟩
  · show ((c.entries ++ [e]).map CacheEntry.place).Nodup
    rw [List.map_append, List.nodup_append]
    refine ⟨h.placed, by simp, fun p hp q hq => ?_⟩
    obtain ⟨d, hd, rfl⟩ := List.mem_map.mp hp
    obtain rfl := List.mem_singleton.mp hq
    intro heq
    have := contains_eq_false_iff.mp free d hd
    rw [CacheEntry.isAt_iff_place.mpr heq] at this
    cases this
  · show c.stats.totalSize + e.size = ((c.entries ++ [e]).map CacheEntry.size).sum
    simp [h.total]
  · show c.stats.entryCount + 1 = (c.entries ++ [e]).length
    simp [h.count]
  · show ((c.entries ++ [e]).map CacheEntry.seq).Nodup
    rw [List.map_append, List.nodup_append]
    refine ⟨h.numbered, by simp, fun n hn m hm => ?_⟩
    obtain ⟨d, hd, rfl⟩ := List.mem_map.mp hn
    obtain rfl := List.mem_singleton.mp hm
    have := h.below d hd
    omega
  · intro d hd
    show d.seq < c.nextSeq + 1
    rcases List.mem_append.mp hd with hd | hd
    · have := h.below d hd
      omega
    · rw [List.mem_singleton.mp hd, seq]
      omega

/-- What touching an entry leaves as it is. -/
theorem touch_entries_map {β : Type} (f : CacheEntry → β) (hf : ∀ e now, f (e.touch now) = f e) (c : Cache)
    (store : CacheStore) (key : String) : (c.touch store key).entries.map f = c.entries.map f := by
  simp only [touch, List.map_map]
  refine List.map_congr_left fun e _ => ?_
  by_cases h : e.isAt store key <;> simp [h, hf]

theorem Accounted.touch (h : c.Accounted) (store : CacheStore) (key : String) : (c.touch store key).Accounted := by
  have hseq := touch_entries_map CacheEntry.seq (fun _ _ => rfl) c store key
  refine ⟨?_, ?_, ?_, ?_, fun d hd => ?_⟩
  · rw [Placed, touch_entries_map CacheEntry.place (fun _ _ => rfl)]
    exact h.placed
  · rw [touch_entries_map CacheEntry.size (fun _ _ => rfl)]
    exact h.total
  · simpa [Cache.touch] using h.count
  · rw [hseq]
    exact h.numbered
  · have hm : d.seq ∈ c.entries.map CacheEntry.seq := hseq ▸ List.mem_map_of_mem hd
    obtain ⟨e, he, hs⟩ := List.mem_map.mp hm
    exact hs ▸ h.below e he

theorem Accounted.step (h : c.Accounted) (hs : Step c c') : c'.Accounted := by
  cases hs with
  | remove store key => exact h.remove store key
  | evict store key reason => exact h.evict store key reason
  | insert e free seq => exact h.insert free seq
  | touch store key => exact h.touch store key
  | _ => exact ⟨h.placed, h.total, h.count, h.numbered, h.below⟩

theorem Accounted.evolves (h : c.Accounted) (he : Evolves c c') : c'.Accounted := by
  induction he with
  | refl => exact h
  | tail _ hs ih => exact ih.step hs

theorem accounted_clearAll (c : Cache) : c.clearAll.Accounted :=
  ⟨List.nodup_nil, rfl, rfl, List.nodup_nil, by simp [clearAll, publish, announce]⟩

theorem Accounted.makes (h : c.Accounted) {request : CacheRequest} (hm : Makes request c c') : c'.Accounted := by
  unfold Makes at hm
  split at hm
  · obtain ⟨timer, rfl⟩ := hm
    exact accounted_clearAll _
  · exact h.evolves hm

theorem Accounted.apply (h : c.Accounted) (event : CacheEvent) : (event.apply c).Accounted := by
  cases event <;> exact ⟨h.placed, h.total, h.count, h.numbered, h.below⟩

theorem accounted_ofOptions (options : CacheOptions) (clock : Clock) : (ofOptions options clock).Accounted :=
  ⟨List.nodup_nil, rfl, rfl, List.nodup_nil, by simp [ofOptions]⟩

theorem history_accounted (options : CacheOptions) (clock : Clock)
    (moves : List (System.Move CacheRequest CacheEvent)) : (history options clock moves).state.Accounted :=
  System.run_keeps (I := fun (c : Cache) _ => c.Accounted) (accounted_ofOptions options clock) request_does
    (fun _ _ h hm => h.makes hm) (fun _ _ event h => h.apply event) moves

/-! ### Evictions -/

/-- The evictions counted are those told. -/
def Tells (c c' : Cache) : Prop :=
  ∃ new, c'.signals = c.signals ++ new ∧
    c'.stats.evictionCount = c.stats.evictionCount + new.countP GraphEvent.isEviction

theorem Tells.refl (c : Cache) : Tells c c := ⟨[], by simp⟩

theorem Tells.trans {d : Cache} (h : Tells c d) (h' : Tells d c') : Tells c c' := by
  obtain ⟨new, hs, hc⟩ := h
  obtain ⟨new', hs', hc'⟩ := h'
  refine ⟨new ++ new', by simp [hs', hs], ?_⟩
  rw [hc', hc, List.countP_append, Nat.add_assoc]

theorem remove_evictionCount (c : Cache) (store : CacheStore) (key : String) :
    (c.remove store key).stats.evictionCount = c.stats.evictionCount := by
  unfold remove
  split <;> rfl

theorem Step.tells (h : Step c c') : Tells c c' := by
  cases h with
  | remove store key => exact ⟨[], by simp [remove_signals], remove_evictionCount c store key⟩
  | evict store key reason =>
    refine ⟨_, evict_signals c store key reason, ?_⟩
    by_cases hc : c.contains store key
    · simp [Cache.evict, hc, announce, remove_evictionCount, GraphEvent.isEviction]
    · simp [Cache.evict, hc]
  | publish => exact ⟨_, rfl, rfl⟩
  | _ => exact ⟨[], (List.append_nil _).symm, rfl⟩

theorem Evolves.tells (h : Evolves c c') : Tells c c' := by
  induction h with
  | refl => exact .refl c
  | tail _ hs ih => exact ih.trans hs.tells

theorem Tells.evictionCount (h : Tells c c') :
    c'.stats.evictionCount = c.stats.evictionCount + (told c c').countP GraphEvent.isEviction := by
  obtain ⟨new, hs, hc⟩ := h
  rw [hc, told, hs, List.drop_left]

/-- When the counters start over, no eviction is counted and none is told after that. -/
theorem Makes.evictionCount {request : CacheRequest} (h : Makes request c c') :
    c'.stats.evictionCount = (if request.startsOver then 0 else c.stats.evictionCount) +
      (told c c').countP GraphEvent.isEviction := by
  unfold Makes at h
  split at h
  · rename_i hs
    obtain ⟨timer, rfl⟩ := h
    simp [hs, told, clearAll, publish, announce, GraphEvent.isEviction]
  · rename_i hs
    rw [if_neg hs]
    exact (Evolves.tells h).evictionCount

/-! ### Every history -/

/-- Taken store by store, nothing is counted twice or left out. -/
theorem sum_stores (f : CacheEntry → Nat) (c : Cache) :
    (CacheStore.all.map fun s => ((c.entriesOf s).map f).sum).sum = (c.entries.map f).sum := by
  unfold entriesOf
  induction c.entries with
  | nil => rfl
  | cons e rest ih =>
    rw [List.map_cons, List.sum_cons, ← ih]
    cases h : e.store <;> simp [CacheStore.all, h] <;> omega

/-- However requests are interleaved: the size counted is that of the entries of the
six stores, and so is their number; entries are numbered apart, below the next
number; no entry is ever removed, in the middle of a section either, whose size or
number was not counted; and the evictions counted are those told since everything
was cleared last. -/
theorem counters_agree (options : CacheOptions) (clock : Clock)
    (moves : List (System.Move CacheRequest CacheEvent)) :
    let w := history options clock moves
    let c := w.state
    c.stats.totalSize = (CacheStore.all.map fun s => ((c.entriesOf s).map CacheEntry.size).sum).sum ∧
      c.stats.entryCount = (CacheStore.all.map c.size).sum ∧
      (c.entries.map CacheEntry.seq).Nodup ∧ (∀ e ∈ c.entries, e.seq < c.nextSeq) ∧
      (∀ d, Evolves c d → ∀ e ∈ d.entries, e.size ≤ d.stats.totalSize ∧ 0 < d.stats.entryCount) ∧
      c.stats.evictionCount = evictionsSinceStart w.past := by
  intro w c
  have h : c.Accounted := history_accounted options clock moves
  have hlen : (CacheStore.all.map c.size).sum = c.entries.length := by
    show (CacheStore.all.map fun s => (c.entriesOf s).length).sum = _
    simpa using sum_stores (fun _ => 1) c
  refine ⟨by rw [sum_stores, h.total], by rw [hlen, h.count], h.numbered, h.below,
    fun d hd e he => (h.evolves hd).covers he, ?_⟩
  refine System.run_keeps (I := fun (c : Cache) past => c.stats.evictionCount = evictionsSinceStart past)
    rfl request_does ?_ ?_ moves
  · intro t past ht hm
    rw [hm.evictionCount, ht, evictionsSinceStart, evictionsSinceStart, List.foldl_append]
    rfl
  · intro c past event hc
    cases event <;> exact hc

end Cache

end CodeAtlas
