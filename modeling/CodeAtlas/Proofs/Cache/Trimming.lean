import CodeAtlas.Proofs.Cache.Pressure

/-! What an optimization keeps.

The entries of each store are ranked apart, and those beyond the share of the store go,
the lowest first (`excess_append_best`). No eviction in one store touches another, so what
is left of a store is the highest part of its ranking (`perm_best`). A second optimization
finds every store within its share. -/
namespace CodeAtlas

/-- What the entries of one store are ranked by: the score (`CacheEntry.approx_score`), then
the last access, then the key. Ranks are compared from left to right. -/
def CacheEntry.rankInStore (now : Nat) (e : CacheEntry) : ℕ ×ₗ ℕ ×ₗ String :=
  toLex (e.worth now, toLex (e.lastAccess, e.key))

theorem CacheEntry.rank_lt_rank {now : Nat} {a b : CacheEntry} (h : a.store = b.store) :
    a.rank now < b.rank now ↔ a.rankInStore now < b.rankInStore now := by
  simp [rank, rankInStore, Prod.Lex.toLex_lt_toLex, h]

namespace Cache

variable {c : Cache} {store : CacheStore} {e : CacheEntry}

/-- The entries of a store, the lowest first. -/
def ranked (c : Cache) (store : CacheStore) : List CacheEntry :=
  (c.entriesOf store).mergeSort (CacheEntry.isWorthAtMost c.clock.now)

/-- The entries of a store that are not too many. -/
def best (c : Cache) (store : CacheStore) : List CacheEntry :=
  (c.ranked store).drop ((c.ranked store).length - c.keptPerStore)

theorem mem_entriesOf : e ∈ c.entriesOf store ↔ e ∈ c.entries ∧ e.store = store := by
  simp [entriesOf]

theorem ranked_perm (c : Cache) (store : CacheStore) : (c.ranked store).Perm (c.entriesOf store) :=
  List.mergeSort_perm _ _

theorem excess_append_best (c : Cache) (store : CacheStore) : c.excess store ++ c.best store = c.ranked store :=
  List.take_append_drop _ _

theorem length_ranked (c : Cache) (store : CacheStore) : (c.ranked store).length = c.size store :=
  (ranked_perm c store).length_eq

theorem length_excess (c : Cache) (store : CacheStore) :
    (c.excess store).length = c.size store - c.keptPerStore := by
  have htake : (c.excess store).length = _ := List.length_take
  rw [htake, ← ranked, length_ranked]
  omega

theorem length_best (c : Cache) (store : CacheStore) :
    (c.best store).length = min (c.size store) c.keptPerStore := by
  rw [best, List.length_drop, length_ranked]
  omega

theorem excess_subset (c : Cache) (store : CacheStore) : c.excess store ⊆ c.entriesOf store := fun _ he =>
  (ranked_perm c store).subset (List.mem_of_mem_take he)

theorem ranked_sorted (h : c.Placed) (store : CacheStore) :
    (c.ranked store).Pairwise fun a b => a.rank c.clock.now < b.rank c.clock.now :=
  ranked_mergeSort (h.sublist (List.filter_sublist.map _)) c.clock.now

/-- All entries that go. -/
def surplus (c : Cache) : List CacheEntry := CacheStore.all.flatMap c.excess

theorem mem_surplus : e ∈ c.surplus ↔ e ∈ c.excess e.store := by
  rw [surplus, List.mem_flatMap]
  constructor
  · rintro ⟨store, -, he⟩
    rwa [(mem_entriesOf.mp (excess_subset c store he)).2]
  · intro he
    exact ⟨e.store, by cases e.store <;> decide, he⟩

/-! ### The entries after an optimization -/

theorem optimize_entries (c : Cache) :
    (optimize c).2.entries = (c.evictAll (c.surplus.map fun e => (e, "optimize"))).entries := rfl

theorem optimize_frame (c : Cache) : Frame c (optimize c).2 := by
  obtain ⟨h₁, h₂, h₃, h₄, h₅⟩ := evictAll_frame (c.surplus.map fun e => (e, "optimize")) c
  exact ⟨h₁, h₂, h₃, h₄, h₅⟩

theorem mem_optimize (h : c.Placed) :
    e ∈ (optimize c).2.entries ↔ e ∈ c.entries ∧ e ∉ c.excess e.store := by
  rw [optimize_entries, mem_evictAll h, List.map_map, ← mem_surplus]
  · simp [Function.comp_def]
  · intro d hd
    obtain ⟨e, he, rfl⟩ := List.mem_map.mp hd
    exact (mem_entriesOf.mp (excess_subset c e.store (mem_surplus.mp he))).1

theorem optimize_sublist (c : Cache) : (optimize c).2.entries.Sublist c.entries := by
  rw [optimize_entries, evictAll_entries]
  exact List.filter_sublist

/-- What is left of a store. -/
theorem perm_best (h : c.Placed) (store : CacheStore) : ((optimize c).2.entriesOf store).Perm (c.best store) := by
  have hentries : c.entries.Nodup := List.Nodup.of_map _ h
  have hleft : ((optimize c).2.entriesOf store).Nodup := ((optimize_sublist c).nodup hentries).filter _
  have hranked : (c.excess store ++ c.best store).Nodup := by
    rw [excess_append_best]
    exact (ranked_perm c store).nodup_iff.mpr (hentries.filter _)
  obtain ⟨-, hbest, hdisjoint⟩ := List.nodup_append.mp hranked
  have hmem : ∀ e, e ∈ c.entriesOf store ↔ e ∈ c.excess store ∨ e ∈ c.best store := fun e => by
    rw [← List.mem_append, excess_append_best]
    exact (ranked_perm c store).mem_iff.symm
  refine (List.perm_ext_iff_of_nodup hleft hbest).mpr fun e => ?_
  rw [mem_entriesOf, mem_optimize h]
  constructor
  · rintro ⟨⟨he, hstays⟩, rfl⟩
    exact ((hmem e).mp (mem_entriesOf.mpr ⟨he, rfl⟩)).resolve_left hstays
  · intro he
    obtain ⟨hc, rfl⟩ := mem_entriesOf.mp ((hmem e).mpr (.inr he))
    exact ⟨⟨hc, fun hexcess => hdisjoint e hexcess e he rfl⟩, rfl⟩

theorem size_optimize (h : c.Placed) (store : CacheStore) :
    (optimize c).2.size store = min (c.size store) c.keptPerStore :=
  (perm_best h store).length_eq.trans (length_best c store)

/-- Nothing goes from stores that are within their share. -/
theorem optimize_of_within (h : ∀ store, c.size store ≤ c.keptPerStore) : optimize c = (0, c.publish) := by
  have hnone : c.surplus = [] := by
    refine List.flatMap_eq_nil_iff.mpr fun store _ => List.eq_nil_of_length_eq_zero ?_
    have := h store
    rw [length_excess]
    omega
  show (c.surplus.length, (c.evictAll (c.surplus.map fun e => (e, "optimize"))).publish) = _
  rw [hnone]
  rfl

theorem sum_size (c : Cache) : (CacheStore.all.map c.size).sum = c.entries.length := by
  show (CacheStore.all.map fun s => (c.entriesOf s).length).sum = _
  simpa using sum_stores (fun _ => 1) c

/-- As many entries went as are told. -/
theorem removed_add_left (h : c.Placed) : (optimize c).1 + (optimize c).2.entries.length = c.entries.length := by
  have hremoved : (optimize c).1 = (CacheStore.all.map fun s => c.size s - c.keptPerStore).sum := by
    show c.surplus.length = _
    rw [surplus, List.length_flatMap]
    simp only [length_excess]
  rw [hremoved, ← sum_size, ← sum_size, ← List.sum_map_add]
  refine congrArg List.sum (List.map_congr_left fun store _ => ?_)
  rw [size_optimize h]
  omega

/-- Whatever requests came before, however interleaved: an optimization keeps, of every
store, as many entries as its share of the entries allows, one at least, or all it has.
Those that stay rank above those that go from their store, and are what they were, in the
order in which they were; nothing but entries, counters and announcements changes. The
answer is the number of entries that went, and none goes in a second optimization. -/
theorem optimize_keeps_the_best (options : CacheOptions) (clock : Clock)
    (moves : List (System.Move CacheRequest CacheEvent)) :
    let c := (history options clock moves).state
    let c' := (optimize c).2
    (∀ store, c'.size store = min (c.size store) (max 1 (c.options.maxEntries / 6))) ∧
      (∀ kept ∈ c'.entries, ∀ gone ∈ c.entries, gone ∉ c'.entries → gone.store = kept.store →
        gone.rankInStore c.clock.now < kept.rankInStore c.clock.now) ∧
      c'.entries.Sublist c.entries ∧ Frame c c' ∧
      (optimize c).1 + c'.entries.length = c.entries.length ∧
      optimize c' = (0, c'.publish) := by
  intro c c'
  have h : c.Placed := (history_accounted options clock moves).placed
  have hshare : c.keptPerStore = max 1 (c.options.maxEntries / 6) := Nat.max_comm _ _
  have hsize : ∀ store, c'.size store = min (c.size store) c.keptPerStore := size_optimize h
  refine ⟨fun store => hshare ▸ hsize store, fun kept hkept gone hgone hleft hstore => ?_, optimize_sublist c,
    optimize_frame c, removed_add_left h, optimize_of_within fun store => ?_⟩
  · have hbest : kept ∈ c.best kept.store := (perm_best h kept.store).subset (mem_entriesOf.mpr ⟨hkept, rfl⟩)
    have hexcess : gone ∈ c.excess gone.store := by
      by_contra hnot
      exact hleft ((mem_optimize h).mpr ⟨hgone, hnot⟩)
    have hsorted := ranked_sorted h kept.store
    rw [← excess_append_best, List.pairwise_append] at hsorted
    exact (CacheEntry.rank_lt_rank hstore).mp (hsorted.2.2 gone (hstore ▸ hexcess) kept hbest)
  · have hsame : c'.keptPerStore = c.keptPerStore := congrArg (fun o => max (o.maxEntries / 6) 1) (optimize_frame c).options
    rw [hsame, hsize]
    exact Nat.min_le_right _ _

end Cache

end CodeAtlas
