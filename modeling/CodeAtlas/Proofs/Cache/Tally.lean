import CodeAtlas.Proofs.Cache.Accounting
import CodeAtlas.Proofs.Routine.Replies

/-! What the counters of lookups count.

Only the last section of a lookup changes a cache: it finds its entry, touches it and counts
a hit, or it counts a miss (`LookedUp`). All other requests leave both counters alone, or
have them start over. So the counters are told by the replies since everything was cleared
last (`lookups_are_tallied`). A lookup for a value of some type looks for any value first,
and what it finds counts as a hit even if it is of another type and not returned
(`isMisread`). Every lookup tells the counters once, when it is answered. -/
namespace CodeAtlas

/-- A request to a cache, or a lookup of a value of one of some types. -/
inductive CacheCall (ι : Type) where
  | plain (request : CacheRequest)
  | getAs (shape : ι) (store : CacheStore) (key : String)

/-- What a call is answered with. -/
inductive CacheAnswer {ι : Type} (T : ι → Type) where
  | plain (reply : CacheReply)
  | found (shape : ι) (value : Option (T shape))

/-- Does the signal tell the counters? -/
def GraphEvent.isStats : GraphEvent → Bool
  | cacheStatsUpdated _ => true
  | _ => false

section Calls

variable {ι : Type} {T : ι → Type}

namespace CacheCall

def routine (T : ι → Type) [∀ i, Wire (T i)] : CacheCall ι → Routine Cache (CacheAnswer T)
  | plain request => do return .plain (← request.routine)
  | getAs shape store key => do return .found shape (← Cache.getAs store key)

/-- Does the call look a value up? -/
def isLookup : CacheCall ι → Bool
  | plain (.get ..) | getAs .. => true
  | plain _ => false

/-- Does the call empty every store and count anew? -/
def startsOver : CacheCall ι → Bool
  | plain request => request.startsOver
  | getAs .. => false

end CacheCall

namespace CacheAnswer

/-- Whether a lookup returned a value; other calls are answered with something else. -/
def returned? : CacheAnswer T → Option Bool
  | plain (.value data) => some data.isSome
  | plain _ => none
  | found _ value => some value.isSome

end CacheAnswer

end Calls

namespace Cache

/-- A cache that looks up values of some types. -/
def typedSystem {ι : Type} (T : ι → Type) [∀ i, Wire (T i)] : System Cache (CacheCall ι) (CacheAnswer T) CacheEvent :=
  ⟨CacheCall.routine T, CacheEvent.apply⟩

variable {c c' : Cache} {store : CacheStore} {key : String}

/-! ### Lookups -/

/-- The last section of a lookup: a hit of the entry in its place, or a miss, for which that
entry may be evicted. -/
inductive LookedUp (store : CacheStore) (key : String) (c : Cache) : Option Json → Cache → Prop where
  | hit {e : CacheEntry} (found : c.find? store key = some e) : LookedUp store key c (some e.data) (c.hit e).2
  | miss : LookedUp store key c none c.miss.2
  | evicted (reason : String) : LookedUp store key c none (c.evict store key reason).miss.2

theorem beginLookup_cases (store : CacheStore) (key : String) (c : Cache) :
    (∃ found, beginLookup store key c = (some found, c)) ∨
      ((beginLookup store key c).1 = none ∧ LookedUp store key c none (beginLookup store key c).2) := by
  unfold beginLookup
  split
  · exact .inr ⟨rfl, .miss⟩
  · split
    · exact .inr ⟨rfl, .evicted _⟩
    · exact .inl ⟨_, rfl⟩

theorem endLookup_lookedUp (store : CacheStore) (key : String) (seq : Nat) (stale : Bool) (c : Cache) :
    LookedUp store key c (endLookup store key seq stale c).1 (endLookup store key seq stale c).2 := by
  unfold endLookup
  split
  · exact .miss
  · rename_i e he
    split
    · exact .miss
    · split
      · exact .evicted _
      · exact .hit he

/-- A lookup changes nothing until its last section. -/
theorem get_concludes (store : CacheStore) (key : String) :
    (get store key).Concludes Eq fun v c c' => LookedUp store key c v c' := by
  refine Routine.Concludes.bind (Routine.concludes_atomic fun c => ?_) fun found => ?_
  · obtain ⟨found, h⟩ | ⟨hnone, hlast⟩ := beginLookup_cases store key c
    · -- With an entry found the lookup goes on, whether or not there is anything to ask for.
      rw [h]
      obtain ⟨seq, dependencies, cachedAt⟩ := found
      cases dependencies <;> rfl
    · rw [hnone]
      exact hlast
  · cases found with
    | none => trivial
    | some found =>
      refine Routine.Concludes.bind (isStale_does (fun _ => rfl) _ _).concludes fun stale => ?_
      exact Routine.concludes_atomic (endLookup_lookedUp store key found.seq stale)

/-- An entry was used, and is still there. -/
def isUsed (store : CacheStore) (key : String) (before after : Cache) : Bool :=
  match before.find? store key, after.find? store key with
  | some e, some e' => e'.accessCount == e.accessCount + 1
  | _, _ => false

theorem find?_touch_self (c : Cache) (store : CacheStore) (key : String) :
    (c.touch store key).find? store key = (c.find? store key).map fun e => e.touch c.clock.now := by
  simp only [find?, touch]
  induction c.entries with
  | nil => rfl
  | cons e rest ih =>
    cases h : e.isAt store key with
    | true =>
      have htouched : (e.touch c.clock.now).isAt store key = true := h
      simp [h, htouched]
    | false => simpa [h] using ih

theorem isUsed_hit {e : CacheEntry} (he : c.find? store key = some e) : isUsed store key c (c.hit e).2 = true := by
  obtain ⟨hstore, hkey⟩ := CacheEntry.isAt_iff.mp (isAt_of_find? he)
  have hafter : (c.hit e).2.find? store key = some (e.touch c.clock.now) := by
    show (c.touch e.store e.key).find? store key = _
    rw [hstore, hkey, find?_touch_self, he]
    rfl
  rw [isUsed, he, hafter]
  simp [CacheEntry.touch]

theorem isUsed_miss (store : CacheStore) (key : String) (c : Cache) : isUsed store key c c.miss.2 = false := by
  have hsame : c.miss.2.find? store key = c.find? store key := rfl
  rw [isUsed, hsame]
  cases c.find? store key with
  | none => rfl
  | some e => simp

theorem isUsed_evicted (store : CacheStore) (key reason : String) (c : Cache) :
    isUsed store key c (c.evict store key reason).miss.2 = false := by
  have hgone : (c.evict store key reason).miss.2.find? store key = none := by
    show (c.evict store key reason).find? store key = none
    rw [find?_eq_none_iff, evict_entries]
    simp
  rw [isUsed, hgone]
  cases c.find? store key <;> rfl

/-! ### Other requests -/

/-- The counters of lookups. -/
def tally (c : Cache) : Nat × Nat := (c.stats.hitCount, c.stats.missCount)

theorem remove_tally (c : Cache) (store : CacheStore) (key : String) : (c.remove store key).tally = c.tally := by
  unfold remove
  split <;> rfl

theorem evict_tally (c : Cache) (store : CacheStore) (key reason : String) :
    (c.evict store key reason).tally = c.tally := by
  unfold evict
  split
  · exact remove_tally c store key
  · rfl

theorem evictAll_tally (doomed : List (CacheEntry × String)) (c : Cache) : (c.evictAll doomed).tally = c.tally :=
  evictAll_rel (R := fun c c' => c'.tally = c.tally) (fun _ => rfl) (fun h h' => h'.trans h) evict_tally doomed c

theorem removeAll_tally (doomed : List CacheEntry) (c : Cache) :
    (doomed.foldl (fun c e => c.remove e.store e.key) c).tally = c.tally := by
  induction doomed generalizing c with
  | nil => rfl
  | cons d rest ih => exact (ih _).trans (remove_tally c d.store d.key)

theorem set_tally (store : CacheStore) (key : String) (data : Json) (dependencies : List String) (c : Cache) :
    (set store key data dependencies c).tally = c.tally := by
  have hroom : (roomFor store key data c).tally = (c.remove store key).tally :=
    makeRoom_rel (R := fun c c' => c'.tally = c.tally) (fun _ => rfl) (fun h h' => h'.trans h) evict_tally _ _ _
  exact hroom.trans (remove_tally c store key)

theorem setOptions_tally (u : CacheOptionsUpdate) (c : Cache) : (setOptions u c).2.tally = c.tally := by
  unfold setOptions
  split <;> rfl

/-- The last section of a call: of a lookup, or of a request that leaves the counters of lookups
alone or has them start over. -/
def Ends {ι : Type} {T : ι → Type} [∀ i, Wire (T i)] : CacheCall ι → CacheAnswer T → Cache → Cache → Prop
  | .getAs shape store key, answer, c, c' =>
    ∃ v, LookedUp store key c v c' ∧ answer = .found shape (v.bind decode?)
  | .plain (.get store key), answer, c, c' => ∃ v, LookedUp store key c v c' ∧ answer = .plain (.value v)
  | .plain request, answer, c, c' =>
    answer.returned? = none ∧ c'.tally = if request.startsOver then (0, 0) else c.tally

theorem call_concludes {ι : Type} (T : ι → Type) [∀ i, Wire (T i)] (call : CacheCall ι) :
    (call.routine T).Concludes Eq (Ends call) := by
  cases call with
  | getAs shape store key =>
    refine Routine.Concludes.map (Routine.Concludes.map ?_)
    exact (get_concludes store key).mono fun v c c' h => ⟨v, h, rfl⟩
  | plain request =>
    refine Routine.Concludes.map ?_
    cases request with
    | get store key =>
      refine Routine.Concludes.map ?_
      exact (get_concludes store key).mono fun v c c' h => ⟨v, h, rfl⟩
    | set store key data dependencies =>
      refine Routine.Concludes.bind (Routine.concludes_atomic fun c => ?_) fun _ => trivial
      exact ⟨rfl, set_tally store key data dependencies c⟩
    | invalidate store key reason =>
      refine Routine.Concludes.map (Routine.concludes_atomic fun c => ?_)
      exact ⟨rfl, evict_tally c store key reason⟩
    | clear store =>
      refine Routine.Concludes.bind (Routine.concludes_atomic fun c => ?_) fun _ => trivial
      cases store with
      | none => exact ⟨rfl, rfl⟩
      | some store => exact ⟨rfl, removeAll_tally _ c⟩
    | optimize => exact Routine.Concludes.map (Routine.concludes_atomic fun c => ⟨rfl, evictAll_tally _ c⟩)
    | sweep => exact Routine.Concludes.map (Routine.concludes_atomic fun c => ⟨rfl, evictAll_tally _ c⟩)
    | setOptions u => exact Routine.Concludes.map (Routine.concludes_atomic fun c => ⟨rfl, setOptions_tally u c⟩)
    | dispose =>
      exact Routine.Concludes.bind (Routine.concludes_atomic fun c => ⟨rfl, rfl⟩) fun _ => trivial

/-! ### What a lookup counts and tells -/

theorem LookedUp.found {data : Json} (h : LookedUp store key c (some data) c') :
    ∃ e, c.find? store key = some e ∧ e.data = data := by
  cases h with
  | hit found => exact ⟨_, found, rfl⟩

/-- A lookup that found something counts a hit, any other a miss. -/
theorem LookedUp.tally {v : Option Json} (h : LookedUp store key c v c') :
    c'.stats.hitCount = c.stats.hitCount + v.isSome.toNat ∧
      c'.stats.missCount = c.stats.missCount + v.isNone.toNat := by
  cases h with
  | hit found => exact ⟨rfl, rfl⟩
  | miss => exact ⟨rfl, rfl⟩
  | evicted reason =>
    obtain ⟨hhits, hmisses⟩ := Prod.mk.inj (evict_tally c store key reason)
    exact ⟨hhits, congrArg (· + 1) hmisses⟩

theorem LookedUp.isUsed {v : Option Json} (h : LookedUp store key c v c') : isUsed store key c c' = v.isSome := by
  cases h with
  | hit found => exact isUsed_hit found
  | miss => exact isUsed_miss store key c
  | evicted reason => exact isUsed_evicted store key reason c

/-- It tells the counters once, as they are then. -/
theorem LookedUp.told {v : Option Json} (h : LookedUp store key c v c') :
    (told c c').filter GraphEvent.isStats = [.cacheStatsUpdated c'.stats] := by
  cases h with
  | hit found =>
    have hsignals : ∀ e, (c.hit e).2.signals = c.signals ++ [.cacheStatsUpdated (c.hit e).2.stats] := fun _ => rfl
    rw [Cache.told, hsignals, List.drop_left]
    rfl
  | miss =>
    have hsignals : c.miss.2.signals = c.signals ++ [.cacheStatsUpdated c.miss.2.stats] := rfl
    rw [Cache.told, hsignals, List.drop_left]
    rfl
  | evicted reason =>
    have hsignals : (c.evict store key reason).miss.2.signals = (c.evict store key reason).signals ++
        [.cacheStatsUpdated (c.evict store key reason).miss.2.stats] := rfl
    rw [Cache.told, hsignals, evict_signals, List.append_assoc, List.drop_left, List.filter_append]
    split <;> rfl

/-! ### Replies -/

/-- The reply to a call. -/
abbrev TypedReply {ι : Type} (T : ι → Type) := System.Reply Cache (CacheCall ι) (CacheAnswer T)

section Replies

variable {ι : Type} {T : ι → Type} {replies : List (TypedReply T)} {r : TypedReply T}

/-- The lookup has used an entry and returned none: what it found is of another type. -/
def isMisread (r : TypedReply T) : Bool :=
  match r.request, r.answer with
  | .getAs _ store key, .found _ none => isUsed store key r.before r.after
  | _, _ => false

/-- The replies since the counters started over last. -/
def sinceStart (replies : List (TypedReply T)) : List (TypedReply T) :=
  replies.foldl (fun kept r => if r.request.startsOver then [] else kept ++ [r]) []

/-- How many lookups returned a value. -/
def values (replies : List (TypedReply T)) : Nat := replies.countP fun r => r.answer.returned? == some true

/-- How many lookups returned none. -/
def nones (replies : List (TypedReply T)) : Nat := replies.countP fun r => r.answer.returned? == some false

/-- How many of these had found something. -/
def misreads (replies : List (TypedReply T)) : Nat := replies.countP isMisread

theorem values_append (xs ys : List (TypedReply T)) : values (xs ++ ys) = values xs + values ys := List.countP_append

theorem nones_append (xs ys : List (TypedReply T)) : nones (xs ++ ys) = nones xs + nones ys := List.countP_append

theorem misreads_append (xs ys : List (TypedReply T)) : misreads (xs ++ ys) = misreads xs + misreads ys :=
  List.countP_append

theorem sinceStart_snoc (replies : List (TypedReply T)) (r : TypedReply T) :
    sinceStart (replies ++ [r]) = if r.request.startsOver then [] else sinceStart replies ++ [r] := by
  rw [sinceStart, List.foldl_append]
  rfl

theorem mem_of_mem_sinceStart (h : r ∈ sinceStart replies) : r ∈ replies := by
  induction replies using List.reverseRecOn with
  | nil => exact h
  | append_singleton replies r' ih =>
    rw [sinceStart_snoc] at h
    split at h
    · cases h
    · exact (List.mem_append.mp h).elim (fun h => List.mem_append_left _ (ih h)) (List.mem_append_right _)

/-- The counters are told by the replies since they started over. -/
structure Tallied (c : Cache) (replies : List (TypedReply T)) : Prop where
  hits : c.stats.hitCount = values (sinceStart replies) + misreads (sinceStart replies)
  misses : c.stats.missCount + misreads (sinceStart replies) = nones (sinceStart replies)

/-- The reply to a lookup that found `v` is counted. -/
theorem Tallied.lookup {v : Option Json} (h : Tallied r.before replies) (hgoes : r.request.startsOver = false)
    (hlooked : LookedUp store key r.before v r.after) (hvalues : values [r] + misreads [r] = v.isSome.toNat)
    (hnones : nones [r] = v.isNone.toNat + misreads [r]) : Tallied r.after (replies ++ [r]) := by
  obtain ⟨hhits, hmisses⟩ := hlooked.tally
  have hsince : sinceStart (replies ++ [r]) = sinceStart replies ++ [r] := by
    rw [sinceStart_snoc, hgoes, if_neg (by decide)]
  constructor
  · rw [hsince, hhits, h.hits, ← hvalues, values_append, misreads_append]
    omega
  · have hbefore := h.misses
    rw [hsince, hmisses, nones_append, misreads_append, hnones]
    omega

/-- So is the reply to any other request: it counts nothing, or has the counters start over. -/
theorem Tallied.other {request : CacheRequest} (h : Tallied r.before replies) (hrequest : r.request = .plain request)
    (hanswer : r.answer.returned? = none)
    (htally : r.after.tally = if request.startsOver then (0, 0) else r.before.tally) :
    Tallied r.after (replies ++ [r]) := by
  have hstarts : r.request.startsOver = request.startsOver := by rw [hrequest]; rfl
  cases hstart : request.startsOver with
  | true =>
    rw [hstart] at htally hstarts
    obtain ⟨hhits, hmisses⟩ := Prod.mk.inj htally
    constructor <;> rw [sinceStart_snoc, hstarts]
    · exact hhits
    · exact hmisses
  | false =>
    rw [hstart] at htally hstarts
    obtain ⟨hhits, hmisses⟩ := Prod.mk.inj htally
    have hmisread : isMisread r = false := by rw [isMisread, hrequest]
    have hsince : sinceStart (replies ++ [r]) = sinceStart replies ++ [r] := by
      rw [sinceStart_snoc, hstarts, if_neg (by decide)]
    constructor
    · rw [hhits, h.hits, hsince]
      simp [values, misreads, hanswer, hmisread]
    · rw [hmisses, hsince]
      simpa [nones, misreads, hanswer, hmisread] using h.misses

variable [∀ i, Wire (T i)]

theorem Tallied.reply (h : Tallied r.before replies) (hends : Ends r.request r.answer r.before r.after) :
    Tallied r.after (replies ++ [r]) := by
  obtain ⟨i, request, answer, c, c'⟩ := r
  cases request with
  | getAs shape store key =>
    obtain ⟨v, hlooked, rfl⟩ := hends
    -- A value that was found counts as returned or as misread, depending on whether it decodes.
    have hused : isUsed store key c c' = v.isSome := hlooked.isUsed
    refine Tallied.lookup h rfl hlooked ?_ ?_ <;> cases v with
    | none => simp [values, misreads, nones, isMisread, CacheAnswer.returned?, hused]
    | some data =>
      cases hdecode : (decode? data : Option (T shape)) <;>
        simp [values, misreads, nones, isMisread, CacheAnswer.returned?, hused, hdecode]
  | plain request =>
    cases request with
    | get store key =>
      obtain ⟨v, hlooked, rfl⟩ := hends
      refine Tallied.lookup h rfl hlooked ?_ ?_ <;> cases v <;>
        simp [values, misreads, nones, isMisread, CacheAnswer.returned?]
    | _ => exact Tallied.other h rfl hends.1 hends.2

/-- What a lookup found that it could not return is no value of the type that was asked for. -/
theorem Ends.misread (hends : Ends r.request r.answer r.before r.after) (h : isMisread r = true) :
    ∃ shape store key e, r.request = .getAs shape store key ∧ r.answer = .found shape none ∧
      r.before.find? store key = some e ∧ (decode? e.data : Option (T shape)) = none := by
  obtain ⟨i, request, answer, c, c'⟩ := r
  cases request with
  | plain request => cases h
  | getAs shape store key =>
    obtain ⟨v, hlooked, rfl⟩ := hends
    cases v with
    | none =>
      have hused : isUsed store key c c' = false := hlooked.isUsed
      have hmisread : isUsed store key c c' = true := h
      rw [hused] at hmisread
      cases hmisread
    | some data =>
      obtain ⟨e, he, rfl⟩ := hlooked.found
      cases hdecode : (decode? e.data : Option (T shape)) with
      | none => exact ⟨shape, store, key, e, rfl, by simp [hdecode], he, hdecode⟩
      | some value => simp [isMisread, hdecode] at h

theorem Ends.lookedUp {call : CacheCall ι} {answer : CacheAnswer T} (hends : Ends call answer c c')
    (h : call.isLookup = true) : ∃ store key v, LookedUp store key c v c' := by
  cases call with
  | getAs shape store key =>
    obtain ⟨v, hlooked, -⟩ := hends
    exact ⟨store, key, v, hlooked⟩
  | plain request =>
    cases request with
    | get store key =>
      obtain ⟨v, hlooked, -⟩ := hends
      exact ⟨store, key, v, hlooked⟩
    | _ => cases h

/-! ### Every history -/

/-- What the sections of a call told of the counters. -/
def statsTold (past : List (System.Taken Cache (CacheCall ι))) (i : Nat) : List GraphEvent :=
  (System.sections past i).flatMap fun t => (told t.before t.after).filter GraphEvent.isStats

/-- A section that changes nothing tells nothing. -/
theorem flatMap_told_eq_nil {taken : List (System.Taken Cache (CacheCall ι))} (h : ∀ t ∈ taken, t.before = t.after) :
    (taken.flatMap fun t => (told t.before t.after).filter GraphEvent.isStats) = [] := by
  refine List.flatMap_eq_nil_iff.mpr fun t ht => ?_
  rw [← h t ht, told, List.drop_length]
  rfl

/-- A lookup tells the counters when it is answered, and not before. -/
theorem statsTold_lookup (s : Cache) (moves : List (System.Move (CacheCall ι) CacheEvent)) {i : Nat}
    {call : System.Call Cache (CacheCall ι) (CacheAnswer T)}
    (hcall : ((typedSystem T).run s moves).calls[i]? = some call) (hlookup : call.request.isLookup = true) :
    match call.rest.answer? with
    | none => statsTold ((typedSystem T).run s moves).past i = []
    | some _ => ∃ stats, statsTold ((typedSystem T).run s moves).past i = [.cacheStatsUpdated stats] := by
  have hbegins : ∀ call, ((typedSystem T).routine call).answer? = none := by
    rintro (request | ⟨shape, store, key⟩)
    · cases request <;> rfl
    · rfl
  have hconcluded := System.run_concludes (S := typedSystem T) (call_concludes T) hbegins s moves i call hcall
  unfold System.Concluded at hconcluded
  cases hanswer : call.rest.answer? with
  | none =>
    rw [hanswer] at hconcluded
    exact flatMap_told_eq_nil hconcluded
  | some answer =>
    rw [hanswer] at hconcluded
    obtain ⟨earlier, last, hsections, hearlier, hlast⟩ := hconcluded
    obtain ⟨store, key, v, hlooked⟩ := hlast.lookedUp hlookup
    refine ⟨last.after.stats, ?_⟩
    rw [statsTold, hsections, List.flatMap_append, flatMap_told_eq_nil hearlier, List.nil_append, List.flatMap_cons,
      List.flatMap_nil, List.append_nil, hlooked.told]

/-- However lookups for values of whatever types are interleaved with other requests and events
from outside: since everything was cleared last, the hits counted are the lookups that returned
a value and those that had found one of another type, which returned none; the misses are all
others that returned none. So the counters tell what was returned exactly if no lookup found a
value of another type. And every lookup tells the counters once, when it is answered. -/
theorem lookups_are_tallied {ι : Type} (T : ι → Type) [∀ i, Wire (T i)] (options : CacheOptions) (clock : Clock)
    (moves : List (System.Move (CacheCall ι) CacheEvent)) :
    let w := (typedSystem T).run (.ofOptions options clock) moves
    let stats := w.state.stats
    let replies := sinceStart ((typedSystem T).replies (.ofOptions options clock) moves)
    (stats.hitCount = values replies + misreads replies ∧ stats.missCount + misreads replies = nones replies) ∧
      (stats.hitCount = values replies ∧ stats.missCount = nones replies ↔ ∀ r ∈ replies, isMisread r = false) ∧
      (∀ r ∈ replies, isMisread r = true → ∃ shape store key e, r.request = .getAs shape store key ∧
        r.answer = .found shape none ∧ r.before.find? store key = some e ∧
        (decode? e.data : Option (T shape)) = none) ∧
      ∀ (i : Nat) (call : System.Call Cache (CacheCall ι) (CacheAnswer T)), w.calls[i]? = some call →
        call.request.isLookup = true →
        match call.rest.answer? with
        | none => statsTold w.past i = []
        | some _ => ∃ stats, statsTold w.past i = [.cacheStatsUpdated stats] := by
  intro w stats replies
  obtain ⟨⟨hhits, hmisses⟩, hends⟩ := System.run_replies (S := typedSystem T)
    (I := fun c replies => Tallied c replies ∧ ∀ r ∈ replies, Ends r.request r.answer r.before r.after)
    (G := fun _ => Eq) (E := Ends) (s := .ofOptions options clock) ⟨⟨rfl, rfl⟩, by simp⟩ (call_concludes T)
    (fun _ _ _ _ h hsame => hsame ▸ h)
    (fun r replies ⟨htallied, hends⟩ hr => ⟨htallied.reply hr, fun r' hr' =>
      (List.mem_append.mp hr').elim (hends r') fun h => List.mem_singleton.mp h ▸ hr⟩)
    (fun c replies event ⟨⟨hhits, hmisses⟩, hends⟩ => ⟨by cases event <;> exact ⟨hhits, hmisses⟩, hends⟩) moves
  have hhits : stats.hitCount = values replies + misreads replies := hhits
  have hmisses : stats.missCount + misreads replies = nones replies := hmisses
  refine ⟨⟨hhits, hmisses⟩, ?_, fun r hr => (hends r (mem_of_mem_sinceStart hr)).misread,
    fun i call hcall hlookup => statsTold_lookup _ moves hcall hlookup⟩
  have hnone : misreads replies = 0 ↔ ∀ r ∈ replies, isMisread r = false := by simp [misreads]
  rw [← hnone]
  omega

end Replies

/-- A text is set and looked up, first as a number and then as it is. -/
def textAsNumber : List (System.Move (CacheCall Unit) CacheEvent) :=
  [.start (.plain (.set .symbols "a" (.str "text") [])), .go 0, .start (.getAs () .symbols "a"), .go 1, .go 1,
    .start (.plain (.get .symbols "a")), .go 2, .go 2]

/-- The counters do not always tell what was returned: both lookups are hits, and only the second
returned a value. -/
theorem text_is_no_number :
    let system := typedSystem fun _ : Unit => UInt8
    let stats := (system.run (.ofOptions {} {}) textAsNumber).state.stats
    let replies := sinceStart (system.replies (.ofOptions {} {}) textAsNumber)
    (stats.hitCount = 2 ∧ stats.missCount = 0 ∧ values replies = 1 ∧ nones replies = 1 ∧ misreads replies = 1) ∧
      ¬ ∀ (ι : Type) (T : ι → Type) [∀ i, Wire (T i)] (options : CacheOptions) (clock : Clock)
          (moves : List (System.Move (CacheCall ι) CacheEvent)),
        let replies := sinceStart ((typedSystem T).replies (.ofOptions options clock) moves)
        ((typedSystem T).run (.ofOptions options clock) moves).state.stats.hitCount = values replies ∧
          ((typedSystem T).run (.ofOptions options clock) moves).state.stats.missCount = nones replies := by
  intro system stats replies
  have hcounts : stats.hitCount = 2 ∧ stats.missCount = 0 ∧ values replies = 1 ∧ nones replies = 1 ∧
      misreads replies = 1 := by decide +kernel
  refine ⟨hcounts, fun h => ?_⟩
  obtain ⟨hhits, -⟩ := h Unit (fun _ => UInt8) {} {} textAsNumber
  have hhits : stats.hitCount = values replies := hhits
  omega

end Cache

end CodeAtlas
