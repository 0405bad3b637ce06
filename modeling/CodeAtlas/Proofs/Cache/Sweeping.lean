import CodeAtlas.Proofs.Cache.Ledger
import CodeAtlas.Proofs.Cache.Pressure
import CodeAtlas.Proofs.Cache.Tally

/-! What a cleanup takes, and what it leaves.

The doomed are listed before the first of them goes, each once (`doomed_eq`); as they are
in different places, every eviction takes just one of them (`evictAll_takes`). So the
entries that are left are those a cleanup has nothing against, a lookup finds each of them
young enough, and another cleanup finds nothing to take (`sweep_of_spared`). -/
namespace CodeAtlas

namespace CacheEntry

variable {ttl now : Nat} {a b e : CacheEntry}

/-- The order of announcements: stores, and within a store keys. -/
def position (e : CacheEntry) : ℕ ×ₗ String := toLex (e.store.rank, e.key)

theorem isBefore_iff : isBefore a b = true ↔ a.position ≤ b.position := by
  have hstore : a.store ≠ b.store → a.store.rank ≠ b.store.rank := fun h => CacheStore.rank_injective.ne h
  simp only [position, Prod.Lex.toLex_le_toLex, isBefore]
  by_cases hs : a.store = b.store
  · simp [hs]
  · simp [hs, hstore hs]

theorem place_eq_of_position_eq (h : a.position = b.position) : a.place = b.place := by
  obtain ⟨hstore, hkey⟩ := Prod.ext_iff.mp (toLex.injective h)
  exact Prod.ext (CacheStore.rank_injective hstore) hkey

/-- Does a cleanup leave the entry? -/
def isSpared (e : CacheEntry) (ttl now : Nat) : Bool := !e.isExpired ttl now && !e.isIdle ttl now

/-- What a cleanup tells of an entry it takes. -/
def ending (ttl now : Nat) (e : CacheEntry) : String := if e.isExpired ttl now then "expired" else "idle"

theorem doom?_eq (ttl now : Nat) (e : CacheEntry) :
    e.doom? ttl now = if e.isSpared ttl now then none else some (e.ending ttl now) := by
  unfold doom? isSpared ending
  cases e.isExpired ttl now <;> cases e.isIdle ttl now <;> rfl

theorem ending_eq (ttl now : Nat) (e : CacheEntry) :
    e.ending ttl now = if ttl < now - e.created then "expired" else "idle" :=
  if_congr decide_eq_true_iff rfl rfl

theorem not_isExpired_of_isSpared (h : e.isSpared ttl now = true) : e.isExpired ttl now = false := by
  simp only [isSpared, Bool.and_eq_true, Bool.not_eq_true'] at h
  exact h.1

theorem isIdle_iff : e.isIdle ttl now = true ↔ (ttl : ℚ) / 2 < (now - e.lastAccess : ℕ) := by
  rw [isIdle, decide_eq_true_eq, div_lt_iff₀ two_pos, mul_comm]
  exact_mod_cast Iff.rfl

theorem isSpared_iff : e.isSpared ttl now = true ↔
    ¬ ttl < now - e.created ∧ ¬ (ttl : ℚ) / 2 < (now - e.lastAccess : ℕ) := by
  rw [isSpared, Bool.and_eq_true, Bool.not_eq_true', Bool.not_eq_true', ← isIdle_iff, isExpired, age,
    decide_eq_false_iff_not, Bool.not_eq_true]

end CacheEntry

namespace Cache

variable {c c' : Cache} {e : CacheEntry}

/-! ### The doomed -/

/-- The entries a cleanup takes, in the order in which it tells of them. -/
def taken (c : Cache) : List CacheEntry :=
  (c.entries.mergeSort CacheEntry.isBefore).filter fun e => !e.isSpared c.options.ttl c.clock.now

theorem doomed_eq (c : Cache) :
    c.doomed = c.taken.map fun e => (e, e.ending c.options.ttl c.clock.now) := by
  show (c.entries.mergeSort CacheEntry.isBefore).filterMap _ = List.map _ (List.filter _ _)
  induction c.entries.mergeSort CacheEntry.isBefore with
  | nil => rfl
  | cons e rest ih =>
    rw [List.filterMap_cons, CacheEntry.doom?_eq, ih, List.filter_cons]
    cases e.isSpared c.options.ttl c.clock.now <;> rfl

theorem taken_perm (c : Cache) :
    c.taken.Perm (c.entries.filter fun e => !e.isSpared c.options.ttl c.clock.now) :=
  (List.mergeSort_perm c.entries CacheEntry.isBefore).filter _

theorem taken_subset (c : Cache) : c.taken ⊆ c.entries := fun _ he =>
  (List.mem_filter.mp ((taken_perm c).subset he)).1

theorem nodup_taken (h : c.Placed) : (c.taken.map CacheEntry.place).Nodup :=
  ((taken_perm c).map _).nodup_iff.mpr ((List.filter_sublist.map _).nodup h)

theorem taken_sorted (h : c.Placed) : c.taken.Pairwise fun a b => a.position < b.position := by
  refine List.Pairwise.filter _ (pairwise_lt_mergeSort CacheEntry.position (fun _ _ => CacheEntry.isBefore_iff) ?_)
  exact (List.pairwise_map.mp h).imp fun hne heq => hne (CacheEntry.place_eq_of_position_eq heq)

/-! ### Taking them -/

/-- The induction is on the doomed: when one of them goes, the others are still in their
places, so each is told of. -/
theorem evictAll_takes (h : c.Placed) {doomed : List (CacheEntry × String)} (hmem : ∀ d ∈ doomed, d.1 ∈ c.entries)
    (hnodup : (doomed.map fun d => d.1.place).Nodup) :
    c.told (c.evictAll doomed) = doomed.map fun d => .cacheEvicted d.1.store d.1.key d.2 := by
  suffices hsignals : (c.evictAll doomed).signals =
      c.signals ++ doomed.map fun d => .cacheEvicted d.1.store d.1.key d.2 by
    rw [told, hsignals, List.drop_left]
  induction doomed generalizing c with
  | nil => exact (List.append_nil _).symm
  | cons d rest ih =>
    obtain ⟨hd, hrest⟩ := List.forall_mem_cons.mp hmem
    obtain ⟨hnew, hnodup⟩ := List.nodup_cons.mp hnodup
    have hcontains : c.contains d.1.store d.1.key = true := by
      rw [contains, h.find?_eq hd d.1.isAt_self, Option.isSome_some]
    have hplaced : (c.evict d.1.store d.1.key d.2).Placed := by
      rw [Placed, evict_entries]
      exact (List.filter_sublist.map _).nodup h
    have hstay : ∀ d' ∈ rest, d'.1 ∈ (c.evict d.1.store d.1.key d.2).entries := by
      intro d' hd'
      rw [evict_entries, List.mem_filter]
      refine ⟨hrest d' hd', ?_⟩
      rw [Bool.not_eq_true', Bool.eq_false_iff, Ne, CacheEntry.isAt_iff_place]
      exact fun hplace => hnew (List.mem_map.mpr ⟨d', hd', hplace⟩)
    have hevict : c.evictAll (d :: rest) = (c.evict d.1.store d.1.key d.2).evictAll rest := rfl
    rw [hevict, ih hplaced hstay hnodup, evict_signals, if_pos hcontains, List.append_assoc]
    rfl

/-- Only entries that are spared are left, and all of them. -/
theorem sweep_entries (h : c.Placed) :
    (sweep c).2.entries = c.entries.filter fun e => e.isSpared c.options.ttl c.clock.now := by
  show (c.evictAll c.doomed).entries = _
  rw [evictAll_entries, doomed_eq]
  refine List.filter_congr fun e he => ?_
  rw [Bool.eq_iff_iff, Bool.not_eq_true', List.any_eq_false]
  simp only [List.forall_mem_map, Bool.not_eq_true]
  constructor
  · intro hnone
    by_contra hdoomed
    have htaken : e ∈ c.taken := (taken_perm c).mem_iff.mpr (List.mem_filter.mpr ⟨he, by simpa using hdoomed⟩)
    exact Bool.false_ne_true ((hnone e htaken).symm.trans e.isAt_self)
  · intro hspared d hd
    by_contra hat
    obtain ⟨hdc, hdoomed⟩ := List.mem_filter.mp ((taken_perm c).subset hd)
    rw [h.eq_of_isAt he hdc (by simpa using hat) d.isAt_self] at hspared
    rw [hspared] at hdoomed
    cases hdoomed

theorem sweep_told (h : c.Placed) :
    c.told (sweep c).2 = c.taken.map fun e =>
      .cacheEvicted e.store e.key (e.ending c.options.ttl c.clock.now) := by
  show c.told (c.evictAll c.doomed) = _
  rw [doomed_eq, evictAll_takes h, List.map_map]
  · rfl
  · intro d hd
    obtain ⟨e, he, rfl⟩ := List.mem_map.mp hd
    exact taken_subset c he
  · rw [List.map_map]
    exact nodup_taken h

theorem sweep_fst (c : Cache) : (sweep c).1 = c.taken.length := by
  show c.doomed.length = _
  rw [doomed_eq, List.length_map]

theorem sweep_frame (c : Cache) : Frame c (sweep c).2 := evictAll_frame c.doomed c

/-- Where there is nothing to take, nothing happens. -/
theorem sweep_of_spared (h : ∀ e ∈ c.entries, e.isSpared c.options.ttl c.clock.now = true) : sweep c = (0, c) := by
  have hnone : c.taken = [] := by
    rw [← List.length_eq_zero_iff, (taken_perm c).length_eq, List.length_eq_zero_iff, List.filter_eq_nil_iff]
    simpa using h
  show (c.doomed.length, c.evictAll c.doomed) = _
  rw [doomed_eq, hnone]
  rfl

/-! ### A cleanup and the next request -/

/-- A lookup finds the entries that are spared. -/
theorem beginLookup_of_isSpared (h : c.Placed) (he : e ∈ c.entries)
    (hspared : e.isSpared c.options.ttl c.clock.now = true) :
    beginLookup e.store e.key c = (some ⟨e.seq, e.dependencies, e.cachedAt⟩, c) := by
  have hfind : c.find? e.store e.key = some e := h.find?_eq he e.isAt_self
  simp only [beginLookup, hfind, CacheEntry.not_isExpired_of_isSpared hspared, Bool.false_eq_true, if_false]

/-- A lookup evicts nothing as too old from a cache in which nothing is. -/
theorem get_tells_none_expired (h : ∀ e ∈ c.entries, e.isExpired c.options.ttl c.clock.now = false)
    (store : CacheStore) (key : String) :
    GraphEvent.cacheEvicted store key "expired" ∉ c.told ((get store key).run c).2 := by
  rw [get_run]
  cases hf : c.find? store key with
  | none => simp [told, miss, publish, announce]
  | some e =>
    simp only [h e (mem_of_find? hf), Bool.false_eq_true, if_false]
    split
    · simp only [told, miss, publish, announce, evict_signals, List.append_assoc, List.drop_left]
      split <;> simp
    · simp [told, hit, touch, publish, announce]

/-- Whatever requests came before, however interleaved: a cleanup takes the entries that are
older than they may get, and those that were not used for more than half that time; the
others stay, as they are and in their order. Of each entry that goes it is told once why,
and its age comes first; they are told of in the order of stores and keys. The answer is
the number of entries that went, which is also counted; the counters agree with the entries
that are left, and nothing else changes. At the same moment a lookup finds every entry
that is left young enough, and another cleanup takes nothing. -/
theorem sweep_takes_the_old_and_the_idle (options : CacheOptions) (clock : Clock)
    (moves : List (System.Move CacheRequest CacheEvent)) :
    let c := (history options clock moves).state
    let c' := (sweep c).2
    let old (e : CacheEntry) : Prop := c.options.ttl < c.clock.now - e.created
    let idle (e : CacheEntry) : Prop := (c.options.ttl : ℚ) / 2 < (c.clock.now - e.lastAccess : ℕ)
    (∃ gone : List CacheEntry,
      gone.Perm (c.entries.filter fun e => old e ∨ idle e) ∧
      gone.Pairwise (fun a b => a.position < b.position) ∧
      c.told c' = gone.map fun e => .cacheEvicted e.store e.key (if old e then "expired" else "idle")) ∧
    c'.entries = (c.entries.filter fun e => ¬ old e ∧ ¬ idle e) ∧
    (sweep c).1 + c'.entries.length = c.entries.length ∧
    c'.stats.evictionCount = c.stats.evictionCount + (sweep c).1 ∧
    c'.Accounted ∧ c'.tally = c.tally ∧ Frame c c' ∧
    (∀ e ∈ c'.entries, beginLookup e.store e.key c' = (some ⟨e.seq, e.dependencies, e.cachedAt⟩, c')) ∧
    (∀ store key, GraphEvent.cacheEvicted store key "expired" ∉ c'.told ((get store key).run c').2) ∧
    sweep c' = (0, c') := by
  intro c c' old idle
  have h : c.Accounted := history_accounted options clock moves
  have hframe : Frame c c' := sweep_frame c
  have hspared : ∀ e, e.isSpared c.options.ttl c.clock.now = decide (¬ old e ∧ ¬ idle e) := by
    intro e
    rw [Bool.eq_iff_iff, decide_eq_true_iff]
    exact CacheEntry.isSpared_iff
  have hleft : c'.entries = c.entries.filter fun e => ¬ old e ∧ ¬ idle e := by
    rw [sweep_entries h.placed]
    exact List.filter_congr fun e _ => hspared e
  have hgone : c.taken.Perm (c.entries.filter fun e => old e ∨ idle e) := by
    refine (taken_perm c).trans (List.Perm.of_eq (List.filter_congr fun e _ => ?_))
    rw [hspared, ← decide_not, decide_eq_decide]
    tauto
  have htold : c.told c' = c.taken.map fun e => .cacheEvicted e.store e.key (if old e then "expired" else "idle") := by
    rw [sweep_told h.placed]
    exact List.map_congr_left fun e _ => by rw [CacheEntry.ending_eq]
  have hyoung : ∀ e ∈ c'.entries, e.isSpared c'.options.ttl c'.clock.now = true := by
    intro e he
    rw [hframe.options, hframe.clock]
    rw [sweep_entries h.placed] at he
    exact (List.mem_filter.mp he).2
  have hc' : c'.Accounted := h.evolves (evictAll_evolves c.doomed c)
  refine ⟨⟨c.taken, hgone, taken_sorted h.placed, htold⟩, hleft, ?_, ?_, hc', evictAll_tally c.doomed c, hframe,
    fun e he => beginLookup_of_isSpared hc'.placed he (hyoung e he),
    fun store key => ?_, sweep_of_spared hyoung⟩
  · rw [sweep_fst, hgone.length_eq, hleft, ← List.countP_eq_length_filter, ← List.countP_eq_length_filter,
      List.length_eq_countP_add_countP (fun e => old e ∨ idle e)]
    simp [not_or]
  · have hcount : c'.stats.evictionCount = _ := (evictAll_evolves c.doomed c).tells.evictionCount
    rw [hcount, show c.told (c.evictAll c.doomed) = _ from htold, sweep_fst, List.countP_map, List.countP_eq_length.mpr]
    exact fun _ _ => rfl
  · exact get_tells_none_expired (fun e he => CacheEntry.not_isExpired_of_isSpared (hyoung e he)) store key

end Cache

end CodeAtlas
