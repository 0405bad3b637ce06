import CodeAtlas.Proofs.Cache.Accounting
import CodeAtlas.Proofs.Float.Accuracy
import CodeAtlas.Proofs.Float.Bits
import Mathlib.Data.Prod.Lex
import Mathlib.Data.String.Basic

/-! Which entries make room for a new value.

The score of an entry is the number of accesses times the age, up to a few roundings
(`approx_score`), and scores are in the order of their bits (`worth_le_worth_iff`). The
candidates are ranked once, before the first of them goes (`byWorth_ranked`), and are
evicted in that order until the value fits or none is left. As the counters agree with the
entries all the way, the loop stops exactly where the sizes of the entries that are left
allow for it (`makeRoom_makesRoom`). So those evicted are the shortest sufficient prefix of
the ranking, or all (`set_evicts_shortest_prefix`). -/
namespace CodeAtlas

/-! ### The ranking -/

theorem CacheStore.rank_injective : Function.Injective CacheStore.rank := by
  intro s t h
  cases s <;> cases t <;> first | rfl | cases h

namespace CacheEntry
open Binary64 Float.Model.UnpackedFloat

variable {now : Nat} {a b e : CacheEntry}

theorem parts_billion : parts 1e9 = .finite .positive (1953125 * 2 ^ 32) (-23) (by norm_num) := rfl

theorem value_billion : value 1e9 = 10 ^ 9 := by
  rw [value, parts_billion]
  norm_num [toRat, unit]

/-- Milliseconds are as many seconds up to three roundings. -/
theorem approx_seconds {ms : Nat} (h : ms < 2 ^ 64) : IsSize (seconds ms) ∧ (seconds ms).isFinite = true ∧
    Approx 3 (ms / 1000) (value (seconds ms)) := by
  have billion : (1e9 : Float).isFinite = true := by rw [isFinite_eq, parts_billion]; rfl
  have positive : IsSize 1e9 := by rw [IsSize, parts_billion]; rfl
  have nonzero : value 1e9 ≠ 0 := by rw [value_billion]; norm_num
  have whole_lt : ms / 1000 < 2 ^ 64 := by omega
  have rest_lt : ms % 1000 * 1000000 < 2 ^ 64 := by omega
  have whole := (isRounding_ofNat (ms / 1000)).approx (ordinary_natCast whole_lt)
  -- the rest is divided, which rounds it once more
  have quotient := isRounding_div (isFinite_ofNat rest_lt) billion nonzero
  rw [value_billion] at quotient
  have divided := ((isRounding_ofNat (ms % 1000 * 1000000)).approx (ordinary_natCast rest_lt)).div
    (r := 10 ^ 9) (by norm_num)
  rw [show ((ms % 1000 * 1000000 : ℕ) : ℚ) / 10 ^ 9 = (ms % 1000 : ℕ) / 1000 by push_cast; ring] at divided
  have range := divided.ordinary (by norm_num) (by omega)
  have sum := isRounding_add (isFinite_ofNat whole_lt) (quotient.isFinite_of_ordinary range)
  have total := (whole.mono (by positivity) (by norm_num)).add (divided.trans (quotient.approx range))
  have exact_total : ((ms / 1000 : ℕ) : ℚ) + (ms % 1000 : ℕ) / 1000 = ms / 1000 := by
    have split : ((ms / 1000 : ℕ) : ℚ) * 1000 + (ms % 1000 : ℕ) = ms := by exact_mod_cast Nat.div_add_mod' ms 1000
    linarith
  rw [exact_total] at total
  have ordinary := total.ordinary (by norm_num) (by omega)
  exact ⟨(isSize_ofNat _).add ((isSize_ofNat _).div positive (isFinite_ofNat rest_lt) billion nonzero),
    sum.isFinite_of_ordinary ordinary, total.trans (sum.approx ordinary)⟩

/-- The number of accesses and the age have no more bits than are there to count them. -/
structure IsCounted (now : Nat) (e : CacheEntry) : Prop where
  accesses : e.accessCount < 2 ^ 64
  age : e.age now < 2 ^ 64

/-- The score is the number of accesses times the age in seconds, up to five roundings. -/
theorem approx_score (h : e.IsCounted now) :
    IsSize (e.score now) ∧ Approx 5 (e.accessCount * (e.age now / 1000)) (value (e.score now)) := by
  obtain ⟨size, finite, near⟩ := approx_seconds h.age
  have count := (isRounding_ofNat e.accessCount).approx (ordinary_natCast h.accesses)
  have product := isRounding_mul (isFinite_ofNat h.accesses) finite
  have total := count.mul near (by positivity) (by positivity)
  have ordinary : Ordinary (value (Float.ofNat e.accessCount) * value (seconds (e.age now))) := by
    have bound : e.accessCount * e.age now < 2 ^ 128 :=
      (Nat.mul_lt_mul'' h.accesses h.age).trans_eq (by norm_num)
    refine Approx.ordinary (n := e.accessCount * e.age now) (k := 4) ?_ (by norm_num) bound
    rw [Nat.cast_mul, mul_div_assoc]
    exact total
  exact ⟨(isSize_ofNat _).mul size (isFinite_ofNat h.accesses) finite, total.trans (product.approx ordinary)⟩

theorem worth_le_worth_iff (ha : a.IsCounted now) (hb : b.IsCounted now) :
    a.worth now ≤ b.worth now ↔ a.score now ≤ b.score now :=
  toNat_toBits_le_iff (approx_score ha).1 (approx_score hb).1

/-- What entries are ranked by: the score (`approx_score` says what that is), then the last
access, then the place. Ranks are compared from left to right. -/
def rank (now : Nat) (e : CacheEntry) : ℕ ×ₗ ℕ ×ₗ ℕ ×ₗ String :=
  toLex (e.worth now, toLex (e.lastAccess, toLex (e.store.rank, e.key)))

theorem isWorthAtMost_iff : isWorthAtMost now a b = true ↔ a.rank now ≤ b.rank now := by
  have hstore : a.store ≠ b.store → a.store.rank ≠ b.store.rank := fun h => CacheStore.rank_injective.ne h
  simp only [rank, Prod.Lex.toLex_le_toLex, isWorthAtMost]
  by_cases hworth : a.worth now = b.worth now
  · by_cases hlast : a.lastAccess = b.lastAccess
    · by_cases hs : a.store = b.store
      · simp [hworth, hlast, hs]
      · simp [hworth, hlast, hs, hstore hs]
    · simp [hworth, hlast]
  · simp [hworth]

/-- The entry of the smaller product of accesses and age ranks lower, unless rounding hides
which one that is. -/
theorem rank_lt_rank_of_score (ha : a.IsCounted now) (hb : b.IsCounted now)
    (h : a.accessCount * (a.age now / 1000 : ℚ) * (1 + 1 / 2 ^ 52) ^ 5 <
      b.accessCount * (b.age now / 1000) * (1 - 1 / 2 ^ 52) ^ 5) :
    a.rank now < b.rank now := by
  obtain ⟨sizeA, nearA⟩ := approx_score ha
  obtain ⟨sizeB, nearB⟩ := approx_score hb
  have lt := toNat_toBits_lt sizeA sizeB (nearA.high.trans_lt (h.trans_le nearB.low))
  rw [rank, rank, Prod.Lex.toLex_lt_toLex]
  exact .inl lt

/-- Entries in different places have different ranks. -/
theorem place_eq_of_rank_eq (h : a.rank now = b.rank now) : a.place = b.place := by
  have hstore : a.store.rank = b.store.rank := congrArg (fun r => (ofLex (ofLex (ofLex r).2).2).1) h
  have hkey : a.key = b.key := congrArg (fun r => (ofLex (ofLex (ofLex r).2).2).2) h
  exact Prod.ext (CacheStore.rank_injective hstore) hkey

/-- What is told when an entry makes room. -/
def spaceNeeded (e : CacheEntry) : GraphEvent := .cacheEvicted e.store e.key "space-needed"

end CacheEntry

namespace Cache

variable {c c' : Cache} {incoming : Nat} {candidates : List CacheEntry}

/-- Sorting by a key leaves nothing open when no two items have the same key. -/
theorem pairwise_lt_mergeSort {α β : Type} [LinearOrder β] {le : α → α → Bool} (key : α → β)
    (hle : ∀ a b, le a b = true ↔ key a ≤ key b) {xs : List α} (h : xs.Pairwise fun a b => key a ≠ key b) :
    (xs.mergeSort le).Pairwise fun a b => key a < key b := by
  have hsorted : (xs.mergeSort le).Pairwise fun a b => le a b = true := by
    refine List.pairwise_mergeSort (fun a b d hab hbd => ?_) (fun a b => ?_) xs
    · rw [hle] at hab hbd ⊢
      exact hab.trans hbd
    · rw [Bool.or_eq_true, hle, hle]
      exact le_total _ _
  have hdistinct : (xs.mergeSort le).Pairwise fun a b => key a ≠ key b :=
    h.perm (List.mergeSort_perm xs le).symm Ne.symm
  exact hsorted.imp₂ (fun a b hab hne => lt_of_le_of_ne ((hle a b).mp hab) hne) hdistinct

/-- Entries in different places have different ranks. -/
theorem ranked_mergeSort {entries : List CacheEntry} (h : (entries.map CacheEntry.place).Nodup) (now : Nat) :
    (entries.mergeSort (CacheEntry.isWorthAtMost now)).Pairwise fun a b => a.rank now < b.rank now :=
  pairwise_lt_mergeSort (CacheEntry.rank now) (fun _ _ => CacheEntry.isWorthAtMost_iff)
    ((List.pairwise_map.mp h).imp fun hne heq => hne (CacheEntry.place_eq_of_rank_eq heq))

theorem byWorth_ranked (h : c.Placed) :
    c.byWorth.Pairwise fun a b => a.rank c.clock.now < b.rank c.clock.now :=
  ranked_mergeSort h c.clock.now

/-! ### Making room -/

/-- Some entries went, one by one and in this order, until those that are kept left room or
there were none. -/
structure MakesRoom (incoming : Nat) (evicted kept : List CacheEntry) (c c' : Cache) : Prop where
  accounted : c'.Accounted
  entries : c'.entries.Perm kept
  told : c'.signals = c.signals ++ evicted.map CacheEntry.spaceNeeded
  counted : c'.stats.evictionCount = c.stats.evictionCount + evicted.length
  enough : (kept.map CacheEntry.size).sum + incoming ≤ c.options.maxSize ∨ kept = []
  /-- Before each of them went, there was no room. -/
  needed : ∀ n < evicted.length,
    c.options.maxSize < (((evicted ++ kept).drop n).map CacheEntry.size).sum + incoming

/-- There is room when the entries leave it. -/
theorem fits_iff (h : c.Accounted) (hp : candidates.Perm c.entries) :
    c.fits incoming = true ↔ (candidates.map CacheEntry.size).sum + incoming ≤ c.options.maxSize := by
  rw [fits, h.total, (hp.map CacheEntry.size).sum_nat, decide_eq_true_eq]

/-- The first of the candidates goes. -/
theorem evict_head {e : CacheEntry} {rest : List CacheEntry} (h : c.Accounted) (hp : (e :: rest).Perm c.entries)
    (reason : String) :
    let c' := c.evict e.store e.key reason
    rest.Perm c'.entries ∧ c'.signals = c.signals ++ [.cacheEvicted e.store e.key reason] ∧
      c'.stats.evictionCount = c.stats.evictionCount + 1 := by
  intro c'
  have he : e ∈ c.entries := hp.subset List.mem_cons_self
  have hfind : c.find? e.store e.key = some e := h.placed.find?_eq he e.isAt_self
  have hcontains : c.contains e.store e.key = true := by rw [contains, hfind, Option.isSome_some]
  refine ⟨?_, ?_, ?_⟩
  · rw [evict_entries]
    exact (hp.trans (h.placed.perm_of_find? hfind)).cons_inv
  · rw [evict_signals, if_pos hcontains]
  · simp only [c', evict, hcontains, if_true, announce, remove_evictionCount]

/-- The induction is on the candidates; the counters agree with the entries before each
of them is evicted, so that it is known what the next test says. -/
theorem makeRoom_makesRoom (incoming : Nat) (h : c.Accounted) (hp : candidates.Perm c.entries) :
    ∃ evicted kept, candidates = evicted ++ kept ∧
      MakesRoom incoming evicted kept c (makeRoom incoming candidates c) := by
  induction candidates generalizing c with
  | nil =>
    exact ⟨[], [], rfl, h, hp.symm, (List.append_nil _).symm, rfl, .inr rfl, fun n hn => absurd hn n.not_lt_zero⟩
  | cons e rest ih =>
    have hfits : c.fits incoming = true ↔ _ := fits_iff h hp
    unfold makeRoom
    cases hroom : c.fits incoming with
    | true =>
      rw [hroom] at hfits
      exact ⟨[], e :: rest, rfl, h, hp.symm, (List.append_nil _).symm, rfl, .inl (hfits.mp rfl),
        fun n hn => absurd hn n.not_lt_zero⟩
    | false =>
      rw [hroom] at hfits
      obtain ⟨hrest, hsignals, hcount⟩ := evict_head h hp "space-needed"
      obtain ⟨evicted, kept, rfl, hmakes⟩ := ih (h.evict e.store e.key "space-needed") hrest
      have hoptions : (c.evict e.store e.key "space-needed").options = c.options := (evict_frame _ _ _ _).options
      refine ⟨e :: evicted, kept, rfl, hmakes.accounted, hmakes.entries, ?_, ?_, hoptions ▸ hmakes.enough, ?_⟩
      · rw [if_neg Bool.false_ne_true, hmakes.told, hsignals, List.append_assoc]
        rfl
      · rw [if_neg Bool.false_ne_true, hmakes.counted, hcount, List.length_cons, Nat.add_assoc, Nat.add_comm 1]
      · intro n hn
        cases n with
        | zero => exact Nat.lt_of_not_le fun hle => Bool.false_ne_true (hfits.mpr hle)
        | succ n => exact hoptions ▸ hmakes.needed n (Nat.lt_of_succ_lt_succ hn)

/-! ### Setting a value -/

/-- For a new value the entries in other places make room; one that was in its place is
removed before that, silently. -/
theorem roomFor_makesRoom (h : c.Accounted) (store : CacheStore) (key : String) (data : Json) :
    ∃ evicted kept,
      (evicted ++ kept).Perm (c.entries.filter fun e => !e.isAt store key) ∧
      (evicted ++ kept).Pairwise (fun a b => a.rank c.clock.now < b.rank c.clock.now) ∧
      MakesRoom (approximateSize data) evicted kept c (roomFor store key data c) := by
  have hremove : Frame c (c.remove store key) := remove_frame c store key
  obtain ⟨evicted, kept, hranking, hroom⟩ :
      ∃ evicted kept, (c.remove store key).byWorth = evicted ++ kept ∧
        MakesRoom (approximateSize data) evicted kept (c.remove store key) (roomFor store key data c) :=
    makeRoom_makesRoom _ (h.remove store key) (List.mergeSort_perm _ _)
  refine ⟨evicted, kept, ?_, ?_, hroom.accounted, hroom.entries, ?_, ?_, ?_, ?_⟩
  · rw [← hranking, ← remove_entries]
    exact List.mergeSort_perm _ _
  · rw [← hranking, ← hremove.clock]
    exact byWorth_ranked (h.remove store key).placed
  · rw [hroom.told, remove_signals]
  · rw [hroom.counted, remove_evictionCount]
  · exact hremove.options ▸ hroom.enough
  · exact hremove.options ▸ hroom.needed

/-- The new entry is the same whatever made room for it. -/
theorem newEntry_roomFor (store : CacheStore) (key : String) (data : Json) (dependencies : List String) (c : Cache) :
    newEntry store key data dependencies (roomFor store key data c) = newEntry store key data dependencies c := by
  have hframe : Frame c (roomFor store key data c) := (remove_frame c store key).trans (makeRoom_frame _ _ _)
  rw [newEntry, newEntry, hframe.nextSeq, hframe.clock]

/-- Whatever requests came before, however interleaved: when a value is set, the entries in
other places go in the order of their ranks until the value fits or none is left, which is
told of each of them and counted. So those that went are the shortest prefix of the ranking
that makes room, or all of them. The others stay as they are, an entry that was in the place
is replaced without being counted or told, and the new entry is there. After that the size
is within the limit, unless the new entry is the only one. -/
theorem set_evicts_shortest_prefix (options : CacheOptions) (clock : Clock)
    (moves : List (System.Move CacheRequest CacheEvent)) (store : CacheStore) (key : String) (data : Json)
    (dependencies : List String) :
    let c := (history options clock moves).state
    let c' := c.set store key data dependencies
    let e := newEntry store key data dependencies c
    ∃ evicted kept,
      (evicted ++ kept).Perm (c.entries.filter fun e => !e.isAt store key) ∧
      (evicted ++ kept).Pairwise (fun a b => a.rank c.clock.now < b.rank c.clock.now) ∧
      ((kept.map CacheEntry.size).sum + e.size ≤ c.options.maxSize ∨ kept = []) ∧
      (∀ n < evicted.length,
        c.options.maxSize < (((evicted ++ kept).drop n).map CacheEntry.size).sum + e.size) ∧
      c.told c' = evicted.map (fun e => .cacheEvicted e.store e.key "space-needed") ∧
      c'.stats.evictionCount = c.stats.evictionCount + evicted.length ∧
      c'.entries.Perm (kept ++ [e]) ∧ c'.find? store key = some e ∧
      c'.stats.totalSize = (kept.map CacheEntry.size).sum + e.size ∧
      (c'.stats.totalSize ≤ c.options.maxSize ∨ c'.entries = [e]) := by
  intro c c' e
  have hc : c.Accounted := history_accounted options clock moves
  obtain ⟨evicted, kept, hothers, hranked, hroom⟩ := roomFor_makesRoom hc store key data
  -- The new entry is put where nothing is any more.
  have hset : c' = { (roomFor store key data c).add e with nextSeq := (roomFor store key data c).nextSeq + 1 } := by
    have hnew : newEntry store key data dependencies (roomFor store key data c) = e :=
      newEntry_roomFor store key data dependencies c
    rw [← hnew]
    exact set_eq store key data dependencies c
  have haccounted : c'.Accounted := hc.evolves (set_evolves store key data dependencies c)
  have hentries : c'.entries.Perm (kept ++ [e]) := by
    rw [hset]
    exact hroom.entries.append_right [e]
  have hfind : c'.find? store key = some e :=
    haccounted.placed.find?_eq (hentries.symm.subset (by simp)) e.isAt_self
  have htold : c.told c' = evicted.map CacheEntry.spaceNeeded := by
    have hsignals : c'.signals = c.signals ++ evicted.map CacheEntry.spaceNeeded := hset ▸ hroom.told
    rw [told, hsignals, List.drop_left]
  have hcounted : c'.stats.evictionCount = c.stats.evictionCount + evicted.length := hset ▸ hroom.counted
  have htotal : c'.stats.totalSize = (kept.map CacheEntry.size).sum + e.size := by
    rw [haccounted.total, (hentries.map CacheEntry.size).sum_nat]
    simp
  refine ⟨evicted, kept, hothers, hranked, hroom.enough, hroom.needed, htold, hcounted, hentries, hfind, htotal, ?_⟩
  rw [htotal]
  refine hroom.enough.imp_right fun hnone => ?_
  rw [hnone, List.nil_append] at hentries
  exact List.perm_singleton.mp hentries

end Cache

end CodeAtlas
