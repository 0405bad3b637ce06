import CodeAtlas.Proofs.Cache.Accounting
import CodeAtlas.Proofs.Routine.Run

/-! A cache whose requests come one after the other is a keyed map with expiry.

A ledger is kept by someone who sees the requests, the clocks, the oracle and what is
announced, but not the cache: a value that is set is written down with its time, and
what is cleared, invalidated, told to be evicted, or too old or stale when it is asked
for, is struck out (`Ledger.after`). However requests and events from outside follow
each other, the ledger lists exactly the values the cache holds (`kept_lists`), so a
lookup is answered from the ledger (`get_answers_ledger`). -/
namespace CodeAtlas

/-- What a ledger says of one value. -/
structure CacheRecord where
  data : Json
  dependencies : List String
  setAt : Nat
  /-- The time of day when it was set. -/
  cachedAt : Int

def CacheEntry.record (e : CacheEntry) : CacheRecord := ⟨e.data, e.dependencies, e.created, e.cachedAt⟩

/-- The values that were set and not yet struck out, by store and key. -/
abbrev Ledger := CacheStore → String → Option CacheRecord

/-- Young enough, and no dependency changed since. A cache is only asked for the time,
its options and its oracle. -/
def CacheRecord.isCurrent (r : CacheRecord) (c : Cache) : Bool :=
  c.clock.now ≤ r.setAt + c.options.ttl &&
    r.dependencies.all fun d => (c.lastModified d).all fun t => t ≤ r.cachedAt

namespace Ledger

def empty : Ledger := fun _ _ => none

def write (l : Ledger) (store : CacheStore) (key : String) (r : CacheRecord) : Ledger := fun s k =>
  if s = store ∧ k = key then some r else l s k

/-- Strike out some places. -/
def strike (l : Ledger) (gone : CacheStore → String → Bool) : Ledger := fun s k => if gone s k then none else l s k

/-- The ledger after a request, or an event from outside, that took the cache from
one state to another. Nothing of these is looked at but the time, the oracle, the
options and what was told on the way. -/
def after (l : Ledger) (c c' : Cache) : CacheRequest ⊕ CacheEvent → Ledger
  | .inl (.get store key) =>
    if (l store key).any (·.isCurrent c) then l else l.strike fun s k => s == store && k == key
  | .inl (.set store key data dependencies) =>
    (l.strike (Cache.tellsOf (c.told c'))).write store key ⟨data, dependencies, c.clock.now, c.clock.wall⟩
  | .inl (.invalidate store key _) => l.strike fun s k => s == store && k == key
  | .inl (.clear (some store)) => l.strike fun s _ => s == store
  | .inl (.clear none) | .inl .dispose => empty
  | .inl .optimize | .inl .sweep => l.strike (Cache.tellsOf (c.told c'))
  | .inl (.setOptions _) => l
  | .inr _ => l

end Ledger

namespace Cache

/-- A cache with its ledger. -/
structure Kept where
  cache : Cache
  ledger : Ledger

/-- One request from beginning to end, or one event from outside. -/
def turn : CacheRequest ⊕ CacheEvent → Cache → Cache
  | .inl request, c => (request.routine.run c).2
  | .inr event, c => event.apply c

def Kept.turn (k : Kept) (h : CacheRequest ⊕ CacheEvent) : Kept :=
  ⟨Cache.turn h k.cache, k.ledger.after k.cache (Cache.turn h k.cache) h⟩

/-- A new cache and an empty ledger, after all that happened one after the other. -/
def kept (options : CacheOptions) (clock : Clock) (happened : List (CacheRequest ⊕ CacheEvent)) : Kept :=
  happened.foldl Kept.turn ⟨.ofOptions options clock, .empty⟩

variable {c c' : Cache} {l : Ledger}

/-! ### Looking up -/

theorem isStale_run (cachedAt : Int) (resources : List String) (c : Cache) :
    (isStale cachedAt resources).run c = (resources.any fun r => c.changedSince r cachedAt, c) := by
  induction resources with
  | nil => rfl
  | cons resource rest ih =>
    rw [isStale, Routine.run_bind, Routine.run_look, List.any_cons]
    cases c.changedSince resource cachedAt
    · exact ih
    · rfl

/-- A lookup with nothing in between. -/
theorem get_run (store : CacheStore) (key : String) (c : Cache) :
    (get store key).run c =
      match c.find? store key with
      | none => c.miss
      | some e =>
        if e.isExpired c.options.ttl c.clock.now then (c.evict store key "expired").miss
        else if e.dependencies.any fun r => c.changedSince r e.cachedAt then (c.evict store key "stale").miss
        else c.hit e := by
  rw [get, Routine.run_bind, Routine.run_atomic, beginLookup]
  cases hf : c.find? store key with
  | none => rfl
  | some e =>
    cases hx : e.isExpired c.options.ttl c.clock.now with
    | true => simp only [hx, if_true, Routine.run_pure, miss]
    | false =>
      simp only [hx, Bool.false_eq_true, if_false, Routine.run_bind, isStale_run, Routine.run_atomic, endLookup,
        hf, bne_self_eq_false]

theorem isCurrent_iff {r : CacheRecord} :
    r.isCurrent c = true ↔ c.clock.now ≤ r.setAt + c.options.ttl ∧
      ∀ d ∈ r.dependencies, ∀ t, c.lastModified d = some t → t ≤ r.cachedAt := by
  simp only [CacheRecord.isCurrent, Bool.and_eq_true, decide_eq_true_eq, List.all_eq_true, Option.all_eq_true_iff_get]
  refine and_congr_right' (forall₂_congr fun d _ => ?_)
  cases c.lastModified d <;> simp

theorem changedSince_eq_false_iff {resource : String} {cachedAt : Int} :
    changedSince resource cachedAt c = false ↔ ∀ t, c.lastModified resource = some t → t ≤ cachedAt := by
  unfold changedSince
  cases c.lastModified resource <;> simp

/-- A lookup takes an entry that is not current for none. -/
theorem isCurrent_record (e : CacheEntry) (c : Cache) :
    e.record.isCurrent c = (!e.isExpired c.options.ttl c.clock.now &&
      !e.dependencies.any fun r => c.changedSince r e.cachedAt) := by
  rw [Bool.eq_iff_iff, isCurrent_iff, Bool.and_eq_true, Bool.not_eq_true', Bool.not_eq_true', List.any_eq_false,
    CacheEntry.isExpired, CacheEntry.age, decide_eq_false_iff_not]
  simp only [Bool.not_eq_true, changedSince_eq_false_iff]
  refine and_congr_left' ?_
  show c.clock.now ≤ e.created + c.options.ttl ↔ _
  omega

/-- What a lookup with nothing in between finds, and what it does to the entries. -/
theorem get_cases (store : CacheStore) (key : String) (c : Cache) :
    (∃ e, c.find? store key = some e ∧ e.record.isCurrent c = true ∧ (get store key).run c = c.hit e) ∨
    ((∀ e, c.find? store key = some e → e.record.isCurrent c = false) ∧
      ((get store key).run c).1 = none ∧
      ((get store key).run c).2.entries = c.entries.filter fun e => !e.isAt store key) := by
  rw [get_run]
  cases hf : c.find? store key with
  | none =>
    refine .inr ⟨by simp, rfl, (List.filter_eq_self.mpr fun e he => ?_).symm⟩
    simp [find?_eq_none_iff.mp hf e he]
  | some e =>
    have hcurrent := isCurrent_record e c
    dsimp only
    split
    · rename_i hx
      refine .inr ⟨fun e' he' => ?_, rfl, evict_entries c store key "expired"⟩
      rw [← Option.some.inj he', hcurrent, hx]
      rfl
    · rename_i hx
      split
      · rename_i hd
        refine .inr ⟨fun e' he' => ?_, rfl, evict_entries c store key "stale"⟩
        rw [← Option.some.inj he', hcurrent, hd, Bool.not_true, Bool.and_false]
      · rename_i hd
        exact .inl ⟨e, rfl, by rw [hcurrent]; simp [hx, hd], rfl⟩

/-! ### What is found after an operation -/

theorem find?_of_filter (keep : CacheStore → String → Bool)
    (h : c'.entries = c.entries.filter fun e => keep e.store e.key) (store : CacheStore) (key : String) :
    c'.find? store key = if keep store key then c.find? store key else none := by
  rw [find?, h, List.find?_filter]
  have hcongr : (fun e : CacheEntry => decide (keep e.store e.key = true ∧ e.isAt store key = true)) =
      fun e => keep store key && e.isAt store key := by
    funext e
    cases he : e.isAt store key with
    | false => simp
    | true => simp [(CacheEntry.isAt_iff.mp he).1, (CacheEntry.isAt_iff.mp he).2]
  rw [hcongr]
  cases keep store key <;> simp [find?]

theorem Evicts.find? (h : Evicts c c') (store : CacheStore) (key : String) :
    c'.find? store key = if tellsOf (c.told c') store key then none else c.find? store key := by
  obtain ⟨new, hs, he⟩ := h
  rw [find?_of_filter (fun s k => !tellsOf new s k) he, told, hs, List.drop_left]
  cases tellsOf new store key <;> rfl

theorem find?_touch (c : Cache) (store store' : CacheStore) (key key' : String) :
    ((c.touch store key).find? store' key').map CacheEntry.record = (c.find? store' key').map CacheEntry.record := by
  have htouch : ∀ e : CacheEntry,
      (if e.isAt store key then e.touch c.clock.now else e).isAt store' key' = e.isAt store' key' := by
    intro e
    split <;> rfl
  simp only [find?, touch, List.find?_map, Function.comp_def, htouch, Option.map_map]
  congr 1
  funext e
  show (if e.isAt store key then e.touch c.clock.now else e).record = e.record
  split <;> rfl

/-- What is found after a value was set: that value in its place, elsewhere what was
found before unless it was evicted. -/
theorem set_find? (store : CacheStore) (key : String) (data : Json) (dependencies : List String) (c : Cache)
    (store' : CacheStore) (key' : String) :
    ((set store key data dependencies c).find? store' key').map CacheEntry.record =
      if store' = store ∧ key' = key then some ⟨data, dependencies, c.clock.now, c.clock.wall⟩
      else if tellsOf (c.told (set store key data dependencies c)) store' key' then none
      else (c.find? store' key').map CacheEntry.record := by
  let room := roomFor store key data c
  have hframe : Frame c room := (remove_frame c store key).trans (makeRoom_frame ..)
  have hroom : Evicts (c.remove store key) room := makeRoom_evicts ..
  have htold : c.told (set store key data dependencies c) = (c.remove store key).told room := by
    rw [told, told, remove_signals]
    rfl
  have hfind : (set store key data dependencies c).find? store' key' =
      (room.find? store' key').or ([newEntry store key data dependencies room].find? (·.isAt store' key')) :=
    List.find?_append
  rw [hfind, htold]
  split
  · rename_i hat
    obtain ⟨rfl, rfl⟩ := hat
    have hnone : room.find? store' key' = none := by
      simpa [contains] using not_contains_roomFor store' key' data c
    have hat : (newEntry store' key' data dependencies room).isAt store' key' = true := CacheEntry.isAt_self _
    rw [hnone, Option.none_or, List.find?_singleton, hat]
    simp [newEntry, CacheEntry.record, hframe.clock]
  · rename_i hat
    have hnew : (newEntry store key data dependencies room).isAt store' key' = false := by
      rw [Bool.eq_false_iff, Ne, CacheEntry.isAt_iff]
      exact fun h => hat ⟨h.1.symm, h.2.symm⟩
    have hremove : (c.remove store key).find? store' key' = c.find? store' key' := by
      rw [find?_of_filter (fun s k => !(s == store && k == key)) (remove_entries c store key)]
      simp [hat]
    rw [List.find?_singleton, hnew, hroom.find?, hremove]
    split <;> simp

/-! ### The ledger follows the cache -/

/-- The ledger lists what the cache holds. -/
def Lists (l : Ledger) (c : Cache) : Prop := ∀ store key, l store key = (c.find? store key).map CacheEntry.record

theorem Lists.strike (h : Lists l c) {gone : CacheStore → String → Bool}
    (he : c'.entries = c.entries.filter fun e => !gone e.store e.key) : Lists (l.strike gone) c' := by
  intro store key
  rw [find?_of_filter (fun s k => !gone s k) he, Ledger.strike, h]
  cases gone store key <;> rfl

theorem Lists.evicts (h : Lists l c) (he : Evicts c c') : Lists (l.strike (tellsOf (c.told c'))) c' := by
  obtain ⟨new, hs, he⟩ := he
  refine h.strike ?_
  rw [told, hs, List.drop_left]
  exact he

theorem Lists.get (h : Lists l c) (store : CacheStore) (key : String) :
    Lists (l.after c ((get store key).run c).2 (.inl (.get store key))) ((get store key).run c).2 := by
  rw [Ledger.after, h]
  obtain ⟨e, hf, hcurrent, hr⟩ | ⟨hf, -, hentries⟩ := get_cases store key c
  · rw [hf, hr, if_pos (by simpa using hcurrent)]
    exact fun s k => (h s k).trans (find?_touch c e.store s e.key k).symm
  · have hnone : ((c.find? store key).map CacheEntry.record).any (·.isCurrent c) = false := by
      cases hc : c.find? store key with
      | none => rfl
      | some e => exact hf e hc
    rw [hnone]
    exact h.strike hentries

theorem setOptions_entries (u : CacheOptionsUpdate) (c : Cache) : (setOptions u c).2.entries = c.entries := by
  unfold setOptions
  split <;> rfl

theorem Lists.turn (h : Lists l c) (x : CacheRequest ⊕ CacheEvent) :
    Lists (l.after c (Cache.turn x c) x) (Cache.turn x c) := by
  cases x with
  | inr event => cases event <;> exact h
  | inl request =>
    cases request with
    | get store key =>
      have hget : Cache.turn (.inl (.get store key)) c = ((Cache.get store key).run c).2 := by
        rw [Cache.turn, CacheRequest.routine, Routine.run_bind]
        rfl
      rw [hget]
      exact h.get store key
    | set store key data dependencies =>
      intro store' key'
      show _ = ((Cache.set store key data dependencies c).find? store' key').map CacheEntry.record
      rw [set_find?, Ledger.after, Ledger.write, Ledger.strike, h]
      rfl
    | invalidate store key reason => exact h.strike (evict_entries c store key reason)
    | clear place =>
      cases place with
      | none => exact fun _ _ => rfl
      | some store => exact h.strike (clearStore_entries store c)
    | optimize => exact h.evicts ((evictAll_evicts _ c).trans (publish_evicts _))
    | sweep => exact h.evicts (evictAll_evicts _ c)
    | setOptions u =>
      have hentries : (Cache.turn (.inl (.setOptions u)) c).entries = c.entries := setOptions_entries u c
      intro store key
      rw [find?, hentries]
      exact h store key
    | dispose => exact fun _ _ => rfl

theorem kept_lists (options : CacheOptions) (clock : Clock) (happened : List (CacheRequest ⊕ CacheEvent)) :
    Lists (kept options clock happened).ledger (kept options clock happened).cache := by
  induction happened using List.reverseRecOn with
  | nil => exact fun _ _ => rfl
  | append_singleton happened x ih =>
    rw [kept, List.foldl_append]
    exact ih.turn x

/-! ### Answers -/

/-- Whatever happened before, one thing after the other: a lookup finds a value
exactly if it is the value written down last for that store and key and not struck
out since, it is not older than values may get now, and the oracle knows of no
dependency that changed after it was cached. If nothing is found, whatever was there
is gone and all else is as it was; if a value is found, it has been accessed once
more, now, and nothing else changed. -/
theorem get_answers_ledger (options : CacheOptions) (clock : Clock) (happened : List (CacheRequest ⊕ CacheEvent))
    (store : CacheStore) (key : String) :
    let k := kept options clock happened
    let c := k.cache
    let r := (get store key).run c
    (∀ v, r.1 = some v ↔ ∃ e, k.ledger store key = some e ∧ e.data = v ∧
      c.clock.now ≤ e.setAt + c.options.ttl ∧
      ∀ d ∈ e.dependencies, ∀ t, c.lastModified d = some t → t ≤ e.cachedAt) ∧
    (r.1 = none → r.2.entries = c.entries.filter fun e => !e.isAt store key) ∧
    (r.1 ≠ none → r.2.entries = c.entries.map fun e =>
      if e.isAt store key then { e with lastAccess := c.clock.now, accessCount := e.accessCount + 1 } else e) := by
  intro k c r
  have hlists : k.ledger store key = (c.find? store key).map CacheEntry.record := kept_lists options clock happened ..
  simp only [hlists, ← isCurrent_iff]
  obtain ⟨e, hf, hcurrent, hr⟩ | ⟨hf, hr, hentries⟩ := get_cases store key c
  · have hanswer : r.1 = some e.data := congrArg Prod.fst hr
    refine ⟨fun v => ?_, by simp [hanswer], fun _ => ?_⟩
    · rw [hf, hanswer]
      simp only [Option.some.injEq, Option.map_some, exists_eq_left', hcurrent, and_true]
      rfl
    · obtain ⟨rfl, rfl⟩ := CacheEntry.isAt_iff.mp (isAt_of_find? hf)
      exact congrArg (fun p => p.2.entries) hr
  · refine ⟨fun v => ⟨fun hv => ?_, ?_⟩, fun _ => hentries, fun h => absurd hr h⟩
    · rw [show r.1 = none from hr] at hv
      cases hv
    · rintro ⟨s, hs, -, hcurrent⟩
      obtain ⟨e, he, rfl⟩ := Option.map_eq_some_iff.mp hs
      rw [hf e he] at hcurrent
      cases hcurrent

end Cache

end CodeAtlas
