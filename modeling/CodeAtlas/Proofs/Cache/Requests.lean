import CodeAtlas.Proofs.Cache.Entries
import CodeAtlas.Proofs.Routine.Interleaving
import Mathlib.Logic.Relation

/-! The requests a cache answers, and what their sections do.

Any number of requests may be under way at once (`Cache.system`), and between two
sections the clocks may move, the oracle may change its mind and what was announced
may be delivered. All sections but those that empty every store are made of a few
elementary steps (`Step`): what each of these steps keeps holds in the middle of a
section as well as after it (`Evolves`). -/
namespace CodeAtlas

inductive CacheRequest where
  | get (store : CacheStore) (key : String)
  | set (store : CacheStore) (key : String) (data : Json) (dependencies : List String)
  | invalidate (store : CacheStore) (key reason : String)
  | clear (store : Option CacheStore)
  | optimize
  | sweep
  | setOptions (u : CacheOptionsUpdate)
  | dispose

/-- What a request is answered with. -/
inductive CacheReply where
  | value (data : Option Json)
  | existed (b : Bool)
  | removed (n : Nat)
  | options (r : Except AtlasError CacheOptions)
  | done

/-- What happens to a cache from outside. -/
inductive CacheEvent where
  /-- Milliseconds pass. -/
  | pass (ms : Nat)
  /-- The time of day is set. -/
  | setWall (wall : Int)
  /-- From now on the oracle answers like this. -/
  | consult (lastModified : String → Option Int)
  /-- What was announced so far is delivered. -/
  | deliver

namespace CacheRequest

def routine : CacheRequest → Routine Cache CacheReply
  | get store key => do return .value (← Cache.get store key)
  | set store key data dependencies => do
    Routine.change (Cache.set store key data dependencies)
    return .done
  | invalidate store key reason => do return .existed (← Routine.atomic (Cache.invalidate store key reason))
  | clear store => do
    Routine.change (Cache.clear store)
    return .done
  | optimize => do return .removed (← Routine.atomic Cache.optimize)
  | sweep => do return .removed (← Routine.atomic Cache.sweep)
  | setOptions u => do return .options (← Routine.atomic (Cache.setOptions u))
  | dispose => do
    Routine.change Cache.dispose
    return .done

/-- Does the request empty every store and count anew? -/
def startsOver : CacheRequest → Bool
  | clear none | dispose => true
  | _ => false

end CacheRequest

def CacheEvent.apply : CacheEvent → Cache → Cache
  | pass ms, c => c.atMoment (c.clock.now + ms)
  | setWall wall, c => { c with clock := { c.clock with wall } }
  | consult lastModified, c => { c with lastModified }
  | deliver, c => { c with signals := [] }

namespace Cache

def system : System Cache CacheRequest CacheReply CacheEvent := ⟨CacheRequest.routine, CacheEvent.apply⟩

/-- A cache and its requests after some moves, from a cache that was just made. -/
def history (options : CacheOptions) (clock : Clock) (moves : List (System.Move CacheRequest CacheEvent)) :
    System.World Cache CacheRequest CacheReply :=
  system.run (.ofOptions options clock) moves

/-! ### Elementary steps -/

inductive Step : Cache → Cache → Prop where
  | remove (c : Cache) (store : CacheStore) (key : String) : Step c (c.remove store key)
  | evict (c : Cache) (store : CacheStore) (key reason : String) : Step c (c.evict store key reason)
  | insert (c : Cache) (e : CacheEntry) (free : c.contains e.store e.key = false) (seq : e.seq = c.nextSeq) :
    Step c { c.add e with nextSeq := c.nextSeq + 1 }
  | touch (c : Cache) (store : CacheStore) (key : String) : Step c (c.touch store key)
  | count (c : Cache) (hits misses : Nat) :
    Step c { c with stats := { c.stats with hitCount := hits, missCount := misses } }
  | publish (c : Cache) : Step c c.publish
  | configure (c : Cache) (options : CacheOptions) (timer : Option Timer) : Step c { c with options, timer }

/-- Some elementary steps, one after the other. -/
abbrev Evolves : Cache → Cache → Prop := Relation.ReflTransGen Step

theorem Step.evolves {c c' : Cache} (h : Step c c') : Evolves c c' := .single h

variable {c : Cache}

theorem evictAll_evolves (doomed : List (CacheEntry × String)) (c : Cache) : Evolves c (c.evictAll doomed) :=
  evictAll_rel (fun _ => .refl) Relation.ReflTransGen.trans (fun c s k r => (Step.evict c s k r).evolves) doomed c

theorem makeRoom_evolves (incoming : Nat) (candidates : List CacheEntry) (c : Cache) :
    Evolves c (makeRoom incoming candidates c) :=
  makeRoom_rel (fun _ => .refl) Relation.ReflTransGen.trans (fun c s k r => (Step.evict c s k r).evolves)
    incoming candidates c

theorem removeAll_evolves (doomed : List CacheEntry) (c : Cache) :
    Evolves c (doomed.foldl (fun c e => c.remove e.store e.key) c) := by
  induction doomed generalizing c with
  | nil => exact .refl
  | cons d rest ih => exact .head (.remove c d.store d.key) (ih _)

theorem miss_evolves (c : Cache) : Evolves c c.miss.2 :=
  .head (.count c c.stats.hitCount (c.stats.missCount + 1)) (Step.publish _).evolves

theorem hit_evolves (c : Cache) (e : CacheEntry) : Evolves c (c.hit e).2 :=
  .head (.touch c e.store e.key) (.head (.count _ ((c.touch e.store e.key).stats.hitCount + 1)
    (c.touch e.store e.key).stats.missCount) (Step.publish _).evolves)

/-- What is removed, or evicted to make room, is no longer in its place. -/
theorem not_contains_remove (c : Cache) (store : CacheStore) (key : String) :
    (c.remove store key).contains store key = false := by
  simp [contains_eq_false_iff, remove_entries]

theorem Evicts.not_contains {c c' : Cache} (h : Evicts c c') {store : CacheStore} {key : String}
    (hc : c.contains store key = false) : c'.contains store key = false := by
  obtain ⟨new, -, he⟩ := h
  rw [contains_eq_false_iff] at hc ⊢
  intro e hm
  rw [he] at hm
  exact hc e (List.mem_filter.mp hm).1

/-- The cache a new value is added to. -/
def roomFor (store : CacheStore) (key : String) (data : Json) (c : Cache) : Cache :=
  let c := c.remove store key
  makeRoom (approximateSize data) c.byWorth c

/-- The entry of a new value. -/
def newEntry (store : CacheStore) (key : String) (data : Json) (dependencies : List String) (c : Cache) :
    CacheEntry :=
  { store, key, data, size := approximateSize data, dependencies, seq := c.nextSeq, created := c.clock.now
    lastAccess := c.clock.now, cachedAt := c.clock.wall }

theorem set_eq (store : CacheStore) (key : String) (data : Json) (dependencies : List String) (c : Cache) :
    set store key data dependencies c =
      let r := roomFor store key data c
      { r.add (newEntry store key data dependencies r) with nextSeq := r.nextSeq + 1 } := rfl

theorem roomFor_evolves (store : CacheStore) (key : String) (data : Json) (c : Cache) :
    Evolves c (roomFor store key data c) :=
  .head (.remove c store key) (makeRoom_evolves _ _ _)

theorem not_contains_roomFor (store : CacheStore) (key : String) (data : Json) (c : Cache) :
    (roomFor store key data c).contains store key = false :=
  (makeRoom_evicts _ _ _).not_contains (not_contains_remove c store key)

theorem set_evolves (store : CacheStore) (key : String) (data : Json) (dependencies : List String) (c : Cache) :
    Evolves c (set store key data dependencies c) := by
  rw [set_eq]
  exact (roomFor_evolves store key data c).tail (.insert _ _ (not_contains_roomFor store key data c) rfl)

theorem beginLookup_evolves (store : CacheStore) (key : String) (c : Cache) :
    Evolves c (beginLookup store key c).2 := by
  unfold beginLookup
  split
  · exact miss_evolves c
  · split
    · exact .head (.evict c store key "expired") (miss_evolves _)
    · exact .refl

theorem endLookup_evolves (store : CacheStore) (key : String) (seq : Nat) (stale : Bool) (c : Cache) :
    Evolves c (endLookup store key seq stale c).2 := by
  unfold endLookup
  split
  · exact miss_evolves c
  · split
    · exact miss_evolves c
    · split
      · exact .head (.evict c store key "stale") (miss_evolves _)
      · exact hit_evolves c _

theorem setOptions_evolves (u : CacheOptionsUpdate) (c : Cache) : Evolves c (setOptions u c).2 := by
  unfold setOptions
  split
  · exact .refl
  · exact (Step.configure c _ _).evolves

/-! ### Sections -/

/-- What one section of a request does. -/
def Makes (request : CacheRequest) (c c' : Cache) : Prop :=
  if request.startsOver then ∃ timer, c' = { c with timer }.clearAll else Evolves c c'

theorem isStale_does {R : Cache → Cache → Prop} (refl : ∀ c, R c c) (cachedAt : Int) (resources : List String) :
    (isStale cachedAt resources).Does R := by
  induction resources with
  | nil => trivial
  | cons resource rest ih =>
    refine Routine.does_bind (Routine.does_atomic fun c => refl c) fun changed => ?_
    cases changed
    · exact ih
    · trivial

theorem get_does {R : Cache → Cache → Prop} (refl : ∀ c, R c c) (store : CacheStore) (key : String)
    (first : ∀ c, R c (beginLookup store key c).2) (last : ∀ seq stale c, R c (endLookup store key seq stale c).2) :
    (get store key).Does R := by
  refine Routine.does_bind (Routine.does_atomic first) fun found => ?_
  cases found with
  | none => trivial
  | some found => exact Routine.does_bind (isStale_does refl _ _) fun stale => Routine.does_atomic (last _ stale)

theorem request_does (request : CacheRequest) : request.routine.Does (Makes request) := by
  cases request with
  | get store key =>
    exact Routine.does_bind (get_does (fun _ => .refl) store key (beginLookup_evolves store key)
      (endLookup_evolves store key)) fun _ => trivial
  | set store key data dependencies =>
    exact Routine.does_bind (Routine.does_atomic (set_evolves store key data dependencies)) fun _ => trivial
  | invalidate store key reason =>
    exact Routine.does_bind (Routine.does_atomic fun c => (Step.evict c store key reason).evolves) fun _ => trivial
  | clear store =>
    cases store with
    | none => exact Routine.does_bind (Routine.does_atomic fun c => ⟨c.timer, rfl⟩) fun _ => trivial
    | some store =>
      refine Routine.does_bind (Routine.does_atomic fun c => ?_) fun _ => trivial
      exact (removeAll_evolves _ c).tail (.publish _)
  | optimize =>
    exact Routine.does_bind (Routine.does_atomic fun c => (evictAll_evolves _ c).tail (.publish _)) fun _ => trivial
  | sweep => exact Routine.does_bind (Routine.does_atomic fun c => evictAll_evolves _ c) fun _ => trivial
  | setOptions u => exact Routine.does_bind (Routine.does_atomic (setOptions_evolves u)) fun _ => trivial
  | dispose => exact Routine.does_bind (Routine.does_atomic fun c => ⟨none, rfl⟩) fun _ => trivial

end Cache

end CodeAtlas
