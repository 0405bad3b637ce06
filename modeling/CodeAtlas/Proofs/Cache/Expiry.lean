import CodeAtlas.Proofs.Cache.Lookup

/-! How old the entry is that a lookup returns.

While a lookup asks for the dependencies of the entry it found, time goes on and the
time to live may be changed. The age is compared in the first section only. Time
never goes back and no entry is set in the future (`Ages`), so the entry that is
returned was not too old in the first section, and in the last one it is older by
just the time that has passed: it is returned however long that was. -/
namespace CodeAtlas.Cache
open CodeAtlas.System (seen)

variable {c c' : Cache} {store : CacheStore} {key : String}

/-! ### Time and entries -/

/-- No entry was set later than now. -/
def Dated (c : Cache) : Prop := ∀ e ∈ c.entries, e.created ≤ c.clock.now

/-- Time does not go back, and entries are as old as before or were set by now. -/
structure Ages (c c' : Cache) : Prop where
  now : c.clock.now ≤ c'.clock.now
  entries : ∀ e' ∈ c'.entries, e'.created ≤ c'.clock.now ∨ ∃ e ∈ c.entries, e'.created = e.created

theorem ages_of_subset (hclock : c'.clock = c.clock) (hs : c'.entries ⊆ c.entries) : Ages c c' :=
  ⟨by rw [hclock], fun e he => .inr ⟨e, hs he, rfl⟩⟩

theorem Ages.refl (c : Cache) : Ages c c := ages_of_subset rfl (List.Subset.refl _)

theorem Ages.trans {d : Cache} (h : Ages c d) (h' : Ages d c') : Ages c c' := by
  refine ⟨Nat.le_trans h.now h'.now, fun e' he' => ?_⟩
  obtain hnow | ⟨e, he, heq⟩ := h'.entries e' he'
  · exact .inl hnow
  · rw [heq]
    exact (h.entries e he).imp_left fun hnow => Nat.le_trans hnow h'.now

theorem Ages.dated (h : Ages c c') (hc : c.Dated) : c'.Dated := by
  intro e' he'
  obtain hnow | ⟨e, he, heq⟩ := h.entries e' he'
  · exact hnow
  · exact heq ▸ Nat.le_trans (hc e he) h.now

/-! ### What requests and events do -/

theorem ages_remove (c : Cache) (store : CacheStore) (key : String) : Ages c (c.remove store key) :=
  ages_of_subset (remove_frame c store key).clock (by rw [remove_entries]; exact List.filter_sublist.subset)

theorem ages_evict (c : Cache) (store : CacheStore) (key reason : String) : Ages c (c.evict store key reason) :=
  ages_of_subset (evict_frame c store key reason).clock (by rw [evict_entries]; exact List.filter_sublist.subset)

theorem ages_evictAll (doomed : List (CacheEntry × String)) (c : Cache) : Ages c (c.evictAll doomed) :=
  evictAll_rel Ages.refl Ages.trans ages_evict doomed c

theorem ages_touch (c : Cache) (store : CacheStore) (key : String) : Ages c (c.touch store key) := by
  refine ⟨Nat.le_refl _, fun e' he' => ?_⟩
  have hcreated := List.mem_map_of_mem (f := CacheEntry.created) he'
  rw [touch_entries_map CacheEntry.created fun _ _ => rfl] at hcreated
  obtain ⟨e, he, heq⟩ := List.mem_map.mp hcreated
  exact .inr ⟨e, he, heq.symm⟩

/-- The entry of a new value is set now, all others are old ones. -/
theorem ages_set (store : CacheStore) (key : String) (data : Json) (dependencies : List String) (c : Cache) :
    Ages c (set store key data dependencies c) := by
  have hroom : Ages c (roomFor store key data c) :=
    (ages_remove c store key).trans (makeRoom_rel Ages.refl Ages.trans ages_evict _ _ _)
  refine hroom.trans ⟨Nat.le_refl _, fun e he => ?_⟩
  rw [set_eq] at he
  rcases List.mem_append.mp he with he | he
  · exact .inr ⟨e, he, rfl⟩
  · rw [List.mem_singleton.mp he]
    exact .inl (Nat.le_refl _)

theorem ages_clearStore (store : CacheStore) (c : Cache) : Ages c (clearStore store c) := by
  have hremoveAll : ∀ (doomed : List CacheEntry) (c : Cache),
      Ages c (doomed.foldl (fun c e => c.remove e.store e.key) c) := by
    intro doomed
    induction doomed with
    | nil => exact Ages.refl
    | cons d rest ih => exact fun c => (ages_remove c d.store d.key).trans (ih _)
  exact (hremoveAll _ c).trans (ages_of_subset rfl (List.Subset.refl _))

theorem ages_clearAll (c : Cache) : Ages c c.clearAll := ages_of_subset rfl (List.nil_subset _)

theorem ages_miss (c : Cache) : Ages c c.miss.2 := ages_of_subset rfl (List.Subset.refl _)

theorem ages_beginLookup (store : CacheStore) (key : String) (c : Cache) : Ages c (beginLookup store key c).2 := by
  unfold beginLookup
  split
  · exact ages_miss c
  · split
    · exact (ages_evict c store key "expired").trans (ages_miss _)
    · exact .refl c

theorem ages_endLookup (store : CacheStore) (key : String) (seq : Nat) (stale : Bool) (c : Cache) :
    Ages c (endLookup store key seq stale c).2 := by
  unfold endLookup
  split
  · exact ages_miss c
  · rename_i e _
    split
    · exact ages_miss c
    · split
      · exact (ages_evict c store key "stale").trans (ages_miss _)
      · exact (ages_touch c e.store e.key).trans (ages_of_subset rfl (List.Subset.refl _))

theorem ages_setOptions (u : CacheOptionsUpdate) (c : Cache) : Ages c (setOptions u c).2 := by
  unfold setOptions
  split
  · exact .refl c
  · exact ages_of_subset rfl (List.Subset.refl _)

theorem request_ages (request : CacheRequest) : request.routine.Does Ages := by
  cases request with
  | get store key =>
    exact Routine.does_bind (get_does Ages.refl store key (ages_beginLookup store key) (ages_endLookup store key))
      fun _ => trivial
  | set store key data dependencies =>
    exact Routine.does_bind (Routine.does_atomic (ages_set store key data dependencies)) fun _ => trivial
  | invalidate store key reason =>
    exact Routine.does_bind (Routine.does_atomic fun c => ages_evict c store key reason) fun _ => trivial
  | clear store =>
    cases store with
    | none => exact Routine.does_bind (Routine.does_atomic ages_clearAll) fun _ => trivial
    | some store => exact Routine.does_bind (Routine.does_atomic (ages_clearStore store)) fun _ => trivial
  | optimize =>
    refine Routine.does_bind (Routine.does_atomic fun c => ?_) fun _ => trivial
    exact (ages_evictAll _ c).trans (ages_of_subset rfl (List.Subset.refl _))
  | sweep => exact Routine.does_bind (Routine.does_atomic fun c => ages_evictAll _ c) fun _ => trivial
  | setOptions u => exact Routine.does_bind (Routine.does_atomic (ages_setOptions u)) fun _ => trivial
  | dispose =>
    exact Routine.does_bind (Routine.does_atomic fun c => ages_of_subset rfl (List.nil_subset _)) fun _ => trivial

theorem apply_ages (event : CacheEvent) (c : Cache) : Ages c (event.apply c) := by
  refine ⟨?_, fun e he => .inr ⟨e, ?_, rfl⟩⟩
  · cases event with
    | pass ms => exact Nat.le_add_right _ ms
    | _ => exact Nat.le_refl _
  · cases event <;> exact he

/-- The states a call found, in their order, and no entry of them set in the future. -/
theorem seen_ages (options : CacheOptions) (clock : Clock) (moves : List (System.Move CacheRequest CacheEvent))
    (call : Nat) :
    (seen (history options clock moves).past call).Pairwise Ages ∧
      ∀ s ∈ seen (history options clock moves).past call, s.Dated := by
  constructor
  · have hpast := (System.run_climbs (R := Ages) (S := system) Ages.trans request_ages
      (fun c event => apply_ages event c) (ofOptions options clock) moves).1
    exact List.pairwise_map.mpr (hpast.filter _)
  · intro s hs
    obtain ⟨t, ht, -, rfl⟩ := System.mem_seen hs
    refine (System.run_keeps (I := fun c past => c.Dated ∧ ∀ t ∈ past, t.before.Dated)
      ⟨by simp [Dated, ofOptions], by simp⟩ request_ages ?_ ?_ moves).2 t ht
    · rintro t past ⟨hbefore, hpast⟩ hages
      refine ⟨hages.dated hbefore, fun u hu => ?_⟩
      rcases List.mem_append.mp hu with hu | hu
      · exact hpast u hu
      · exact List.mem_singleton.mp hu ▸ hbefore
    · rintro c past event ⟨hc, hpast⟩
      exact ⟨(apply_ages event c).dated hc, hpast⟩

/-! ### What a lookup compares -/

/-- What the first section of a lookup passes on is not too old. -/
theorem age_of_beginLookup {found : Candidate} (h : (beginLookup store key c).1 = some found) {e : CacheEntry}
    (he : c.find? store key = some e) : e.age c.clock.now ≤ c.options.ttl := by
  unfold beginLookup at h
  rw [he] at h
  dsimp only at h
  split at h
  · cases h
  · rename_i hx
    simpa [CacheEntry.isExpired] using hx

theorem age_of_answers {first : Cache} {later : List Cache} {v : Json}
    (h : (get store key).Answers (first :: later) (some v)) {e : CacheEntry} (he : first.find? store key = some e) :
    e.age first.clock.now ≤ first.options.ttl := by
  obtain ⟨ys, zs, found, hxs, hfirst, h⟩ := Routine.answers_bind h
  obtain ⟨s, rfl, hfound⟩ := Routine.answers_atomic hfirst
  obtain ⟨rfl, -⟩ := List.cons.inj hxs
  cases found with
  | none => cases (Routine.answers_pure h).2
  | some found => exact age_of_beginLookup hfound he

/-- However requests and events from outside are interleaved: the entry that a lookup
returns was not too old when its first section found it, and in the last section it is
older by just the time that has passed, whatever the time to live is by then. So it is
not too old if the time to live has grown by as much, as when neither has changed. -/
theorem age_is_compared_first (options : CacheOptions) (clock : Clock)
    (moves : List (System.Move CacheRequest CacheEvent)) :
    let w := history options clock moves
    ∀ i store key v, w.calls[i]? = some ⟨.get store key, .done (.value (some v))⟩ →
      ∃ first asked last e₀ e, seen w.past i = first :: asked ++ [last] ∧ first.find? store key = some e₀ ∧
        last.find? store key = some e ∧ e.sealed = e₀.sealed ∧ e.data = v ∧
        e.age first.clock.now ≤ first.options.ttl ∧ first.clock.now ≤ last.clock.now ∧
        e.age last.clock.now = e.age first.clock.now + (last.clock.now - first.clock.now) ∧
        (first.options.ttl + (last.clock.now - first.clock.now) ≤ last.options.ttl →
          e.age last.clock.now ≤ last.options.ttl) := by
  intro w i store key v hi
  obtain ⟨xs, ys, r, hxs, hr, hreply⟩ := Routine.answers_bind ((System.run_faithful system _ moves).rest i _ hi)
  obtain ⟨rfl, hr'⟩ := Routine.answers_pure hreply
  obtain rfl : r = some v := CacheReply.value.inj hr'
  obtain ⟨first, asked, last, e₀, e, rfl, he₀, he, hseq, hv, -⟩ := get_answers hr
  replace hxs : seen w.past i = first :: asked ++ [last] := by rw [← List.append_nil (_ :: _ ++ _)]; exact hxs
  have hsealed := history_sealed_eq options clock moves hxs (mem_of_find? he₀) (mem_of_find? he) hseq
  have hcreated : e.created = e₀.created := (congrArg CacheEntry.created hsealed :)
  obtain ⟨hages, hdated⟩ : (seen w.past i).Pairwise Ages ∧ ∀ s ∈ seen w.past i, s.Dated :=
    seen_ages options clock moves i
  rw [hxs] at hages hdated
  have hnow := ((List.pairwise_cons.mp hages).1 last (by simp)).now
  have hset : e.created ≤ first.clock.now := hcreated ▸ hdated first (by simp) e₀ (mem_of_find? he₀)
  have hfresh : e.age first.clock.now ≤ first.options.ttl := by
    have := age_of_answers hr he₀
    rwa [CacheEntry.age, hcreated]
  have hage : e.age last.clock.now = e.age first.clock.now + (last.clock.now - first.clock.now) := by
    simp only [CacheEntry.age]
    omega
  exact ⟨first, asked, last, e₀, e, hxs, he₀, he, hsealed, hv, hfresh, hnow, hage, fun h => by omega⟩

/-- A value that may live for a second is looked up after 900 ms; the oracle takes 200 ms. -/
def slowLookup : List (System.Move CacheRequest CacheEvent) :=
  [.start (.set .symbols "a" .null ["b"]), .go 0, .outside (.pass 900), .start (.get .symbols "a"), .go 1, .go 1,
    .outside (.pass 200), .go 1]

theorem slow_lookup_outlives :
    let w := history { ttl := 1000 } {} slowLookup
    w.calls[1]? = some ⟨.get .symbols "a", .done (.value (some .null))⟩ ∧
      ∃ first asked last e₀ e, seen w.past 1 = first :: asked ++ [last] ∧ first.find? .symbols "a" = some e₀ ∧
        last.find? .symbols "a" = some e ∧ e.sealed = e₀.sealed ∧ e.data = .null ∧
        e.age first.clock.now ≤ first.options.ttl ∧ first.clock.now ≤ last.clock.now ∧
        e.age last.clock.now = e.age first.clock.now + (last.clock.now - first.clock.now) ∧
        (first.options.ttl + (last.clock.now - first.clock.now) ≤ last.options.ttl →
          e.age last.clock.now ≤ last.options.ttl) := by
  have hanswer : (history { ttl := 1000 } {} slowLookup).calls[1]? =
      some ⟨.get .symbols "a", .done (.value (some .null))⟩ := by with_unfolding_all rfl
  exact ⟨hanswer, age_is_compared_first { ttl := 1000 } {} slowLookup 1 .symbols "a" .null hanswer⟩

/-- Not every value that is returned is within its time to live: after that slow lookup
it is 1100 ms old. -/
theorem expired_value_is_returned :
    ¬ ∀ options clock moves i store key v,
      (history options clock moves).calls[i]? = some ⟨.get store key, .done (.value (some v))⟩ →
        ∀ last e, (seen (history options clock moves).past i).getLast? = some last →
          last.find? store key = some e → e.age last.clock.now ≤ last.options.ttl := by
  intro h
  have hanswer : (history { ttl := 1000 } {} slowLookup).calls[1]? =
      some ⟨.get .symbols "a", .done (.value (some .null))⟩ := by with_unfolding_all rfl
  have hlast : ∃ last e, (seen (history { ttl := 1000 } {} slowLookup).past 1).getLast? = some last ∧
      last.find? .symbols "a" = some e ∧ last.options.ttl = 1000 ∧ e.age last.clock.now = 1100 :=
    ⟨_, _, by with_unfolding_all rfl, by with_unfolding_all rfl, by with_unfolding_all rfl, by with_unfolding_all rfl⟩
  obtain ⟨last, e, hlast, he, httl, hage⟩ := hlast
  have := h { ttl := 1000 } {} slowLookup 1 .symbols "a" .null hanswer last e hlast he
  omega

end CodeAtlas.Cache
