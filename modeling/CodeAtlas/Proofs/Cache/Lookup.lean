import CodeAtlas.Proofs.Cache.Accounting

/-! A lookup that is interrupted returns what it checked, and evicts nothing else.

Between the two sections of a lookup the entry may be replaced, evicted or cleared.
An entry is known by its number: whatever happens in between, an entry whose number
is not a new one was there before, the same but for its accesses (`Descends`). So the
second section, which goes by place and number, acts on the entry the first one
found, and a value set meanwhile has a number of its own. -/
namespace CodeAtlas

/-- What never changes of an entry: all but its accesses. -/
def CacheEntry.sealed (e : CacheEntry) : CacheEntry := { e with lastAccess := 0, accessCount := 0 }

namespace Cache
open CodeAtlas.System (seen)

variable {c c' : Cache} {store : CacheStore} {key : String}

/-! ### What becomes of entries -/

/-- Entries that are not new were there before. -/
def Descends (c c' : Cache) : Prop :=
  c.nextSeq ≤ c'.nextSeq ∧ ∀ e' ∈ c'.entries, e'.seq < c.nextSeq → ∃ e ∈ c.entries, e.sealed = e'.sealed

theorem seq_of_sealed {e e' : CacheEntry} (h : e.sealed = e'.sealed) : e.seq = e'.seq :=
  (congrArg CacheEntry.seq h :)

theorem Descends.refl (c : Cache) : Descends c c := ⟨Nat.le_refl _, fun e he _ => ⟨e, he, rfl⟩⟩

theorem Descends.trans {d : Cache} (h : Descends c d) (h' : Descends d c') : Descends c c' := by
  refine ⟨Nat.le_trans h.1 h'.1, fun e' he' hlt => ?_⟩
  obtain ⟨e, he, heq⟩ := h'.2 e' he' (Nat.lt_of_lt_of_le hlt h.1)
  obtain ⟨e₀, he₀, heq₀⟩ := h.2 e he (by rw [seq_of_sealed heq]; exact hlt)
  exact ⟨e₀, he₀, heq₀.trans heq⟩

/-- Taking entries out. -/
theorem descends_of_subset (hn : c'.nextSeq = c.nextSeq) (hs : c'.entries ⊆ c.entries) : Descends c c' :=
  ⟨Nat.le_of_eq hn.symm, fun e he _ => ⟨e, hs he, rfl⟩⟩

theorem sealed_touch (e : CacheEntry) (now : Nat) : (e.touch now).sealed = e.sealed := rfl

/-- A touched entry is the same. -/
theorem touch_sealed (c : Cache) (store : CacheStore) (key : String) :
    (c.touch store key).entries.map CacheEntry.sealed = c.entries.map CacheEntry.sealed :=
  touch_entries_map CacheEntry.sealed sealed_touch c store key

theorem Step.descends (h : Step c c') : Descends c c' := by
  cases h with
  | remove store key =>
    refine descends_of_subset (remove_frame c store key).nextSeq ?_
    rw [remove_entries]
    exact List.filter_sublist.subset
  | evict store key reason =>
    refine descends_of_subset (evict_frame c store key reason).nextSeq ?_
    rw [evict_entries]
    exact List.filter_sublist.subset
  | insert e free seq =>
    refine ⟨Nat.le_succ _, fun d hd hlt => ?_⟩
    rcases List.mem_append.mp hd with hd | hd
    · exact ⟨d, hd, rfl⟩
    · rw [List.mem_singleton.mp hd, seq] at hlt
      exact absurd hlt (Nat.lt_irrefl _)
  | touch store key =>
    refine ⟨Nat.le_refl _, fun d hd _ => ?_⟩
    have hd := List.mem_map_of_mem (f := CacheEntry.sealed) hd
    rw [touch_sealed] at hd
    exact List.mem_map.mp hd
  | _ => exact descends_of_subset rfl (List.Subset.refl _)

theorem Evolves.descends (h : Evolves c c') : Descends c c' := by
  induction h with
  | refl => exact .refl c
  | tail _ hs ih => exact ih.trans hs.descends

theorem Makes.descends {request : CacheRequest} (h : Makes request c c') : Descends c c' := by
  unfold Makes at h
  split at h
  · obtain ⟨timer, rfl⟩ := h
    exact descends_of_subset rfl (List.nil_subset _)
  · exact Evolves.descends h

theorem apply_descends (event : CacheEvent) (c : Cache) : Descends c (event.apply c) := by
  cases event <;> exact descends_of_subset rfl (List.Subset.refl _)

/-- Two entries with one number, found at two moments, are the same. -/
theorem Descends.sealed_eq (h : Descends c c') (hc : c.Accounted) {e e' : CacheEntry} (he : e ∈ c.entries)
    (he' : e' ∈ c'.entries) (hs : e'.seq = e.seq) : e'.sealed = e.sealed := by
  obtain ⟨d, hd, heq⟩ := h.2 e' he' (hs ▸ hc.below e he)
  have hde : d = e := List.inj_on_of_nodup_map hc.numbered hd he ((seq_of_sealed heq).trans hs)
  rw [← heq, hde]

/-! ### The sections of a lookup -/

/-- If nothing has changed, every resource was asked for, and had not changed then. -/
theorem isStale_answers {cachedAt : Int} {resources : List String} {asked : List Cache}
    (h : (isStale cachedAt resources).Answers asked false) :
    List.Forall₂ (fun d s => changedSince d cachedAt s = false) resources asked := by
  induction resources generalizing asked with
  | nil =>
    rw [(Routine.answers_pure h).1]
    exact .nil
  | cons resource rest ih =>
    obtain ⟨ys, zs, changed, rfl, hlook, hrest⟩ := Routine.answers_bind h
    obtain ⟨s, rfl, hs⟩ := Routine.answers_atomic hlook
    cases changed with
    | true => cases (Routine.answers_pure hrest).2
    | false => exact .cons hs (ih hrest)

theorem beginLookup_some {found : Candidate} (h : (beginLookup store key c).1 = some found) :
    ∃ e, c.find? store key = some e ∧ found = ⟨e.seq, e.dependencies, e.cachedAt⟩ ∧ (beginLookup store key c).2 = c := by
  unfold beginLookup at h ⊢
  split at h
  · cases h
  · rename_i e he
    split at h
    · cases h
    · rename_i hx
      rw [he]
      exact ⟨e, rfl, (Option.some.inj h).symm, by simp only [hx, Bool.false_eq_true, if_false]⟩

theorem endLookup_some {seq : Nat} {stale : Bool} {v : Json} (h : (endLookup store key seq stale c).1 = some v) :
    ∃ e, c.find? store key = some e ∧ e.seq = seq ∧ stale = false ∧ e.data = v := by
  unfold endLookup at h
  split at h
  · cases h
  · rename_i e he
    split at h
    · cases h
    · rename_i hseq
      split at h
      · cases h
      · rename_i hstale
        exact ⟨e, he, by simpa using hseq, by simpa using hstale, Option.some.inj h⟩

/-- The first section found an entry, then each of its dependencies was asked for, and
the last section found the entry with that number. -/
theorem get_answers {xs : List Cache} {v : Json} (h : (get store key).Answers xs (some v)) :
    ∃ first asked last e₀ e, xs = first :: asked ++ [last] ∧ first.find? store key = some e₀ ∧
      last.find? store key = some e ∧ e.seq = e₀.seq ∧ e.data = v ∧
      List.Forall₂ (fun d s => changedSince d e₀.cachedAt s = false) e₀.dependencies asked := by
  obtain ⟨ys, zs, found, rfl, hfirst, h⟩ := Routine.answers_bind h
  obtain ⟨first, rfl, hfound⟩ := Routine.answers_atomic hfirst
  cases found with
  | none => cases (Routine.answers_pure h).2
  | some found =>
    obtain ⟨e₀, he₀, rfl, -⟩ := beginLookup_some hfound
    obtain ⟨asked, ws, stale, rfl, hasked, hlast⟩ := Routine.answers_bind h
    obtain ⟨last, rfl, hvalue⟩ := Routine.answers_atomic hlast
    obtain ⟨e, he, hseq, rfl, hv⟩ := endLookup_some hvalue
    exact ⟨first, asked, last, e₀, e, rfl, he₀, he, hseq, hv, isStale_answers hasked⟩

/-- A section of a lookup is the first one, or changes nothing, or is the last one and
goes by the number of the entry the first one found. -/
theorem get_takes {xs : List Cache} (h : (get store key).Takes xs c c') :
    (xs = [] ∧ c' = (beginLookup store key c).2) ∨ c' = c ∨
    ∃ first asked e₀ stale, xs = first :: asked ∧ first.find? store key = some e₀ ∧
      c' = (endLookup store key e₀.seq stale c).2 := by
  obtain hbegin | ⟨ys, zs, found, rfl, hfirst, h⟩ := Routine.takes_bind h
  · exact .inl (Routine.takes_atomic hbegin)
  · obtain ⟨first, rfl, hfound⟩ := Routine.answers_atomic hfirst
    cases found with
    | none => exact (Routine.not_takes_pure h).elim
    | some found =>
      obtain ⟨e₀, he₀, rfl, -⟩ := beginLookup_some hfound
      obtain hask | ⟨asked, ws, stale, rfl, -, hend⟩ := Routine.takes_bind h
      · exact .inr (.inl ((Routine.takes_does (isStale_does (R := Eq) (fun _ => rfl) _ _) hask).symm))
      · obtain ⟨rfl, hc'⟩ := Routine.takes_atomic hend
        exact .inr (.inr ⟨first, asked ++ [], e₀, stale, rfl, he₀, hc'⟩)

/-- An entry survives, the same but for its accesses. -/
def Survives (e : CacheEntry) (c : Cache) : Prop := ∃ e' ∈ c.entries, e'.sealed = e.sealed

theorem survives_evict {e : CacheEntry} (he : e ∈ c.entries) (store : CacheStore) (key reason : String) :
    Survives e (c.evict store key reason) ∨ e.isAt store key = true := by
  cases hat : e.isAt store key with
  | true => exact .inr rfl
  | false => exact .inl ⟨e, by rw [evict_entries]; simp [he, hat], rfl⟩

theorem survives_touch {e : CacheEntry} (he : e ∈ c.entries) (store : CacheStore) (key : String) :
    Survives e (c.touch store key) := by
  have hm := List.mem_map_of_mem (f := CacheEntry.sealed) he
  rw [← touch_sealed c store key] at hm
  exact List.mem_map.mp hm

theorem survives_beginLookup (hc : c.Accounted) {e : CacheEntry} (he : e ∈ c.entries) (store : CacheStore)
    (key : String) : Survives e (beginLookup store key c).2 ∨ c.find? store key = some e := by
  unfold beginLookup
  split
  · exact .inl ⟨e, he, rfl⟩
  · rename_i e₀ he₀
    split
    · exact (survives_evict he store key "expired").imp_right (hc.placed.find?_eq he)
    · exact .inl ⟨e, he, rfl⟩

theorem survives_endLookup (hc : c.Accounted) {e : CacheEntry} (he : e ∈ c.entries) (store : CacheStore)
    (key : String) (seq : Nat) (stale : Bool) : Survives e (endLookup store key seq stale c).2 ∨ e.seq = seq := by
  unfold endLookup
  split
  · exact .inl ⟨e, he, rfl⟩
  · rename_i e₀ he₀
    split
    · exact .inl ⟨e, he, rfl⟩
    · rename_i hseq
      split
      · refine (survives_evict he store key "stale").imp_right fun hat => ?_
        rw [hc.placed.eq_of_isAt he (mem_of_find? he₀) hat (isAt_of_find? he₀)]
        simpa using hseq
      · exact .inl (survives_touch he e₀.store e₀.key)

/-! ### Every history -/

/-- The entry the first section of a lookup found. -/
def examined? (past : List (System.Taken Cache CacheRequest)) (call : Nat) (store : CacheStore) (key : String) :
    Option CacheEntry :=
  (seen past call).head?.bind (·.find? store key)

/-- The states a section found are accounted, and later ones descend from earlier ones. -/
theorem history_descends (options : CacheOptions) (clock : Clock)
    (moves : List (System.Move CacheRequest CacheEvent)) :
    let past := (history options clock moves).past
    (∀ t ∈ past, t.before.Accounted) ∧ past.Pairwise fun t u => Descends t.before u.before := by
  intro past
  refine ⟨?_, (System.run_climbs (R := Descends) Descends.trans (fun request => (request_does request).mono fun _ _ => Makes.descends)
    (fun c event => apply_descends event c) _ moves).1⟩
  refine (System.run_keeps (I := fun (c : Cache) past => c.Accounted ∧ ∀ t ∈ past, t.before.Accounted)
    ⟨accounted_ofOptions options clock, by simp⟩ request_does ?_ ?_ moves).2
  · intro t past ⟨ht, hpast⟩ hm
    refine ⟨ht.makes hm, fun u hu => ?_⟩
    rcases List.mem_append.mp hu with hu | hu
    · exact hpast u hu
    · rw [List.mem_singleton.mp hu]
      exact ht
  · exact fun c past event ⟨hc, hpast⟩ => ⟨hc.apply event, hpast⟩

/-- Of two states a call found, the later one descends from the earlier one. -/
theorem seen_descends {past : List (System.Taken Cache CacheRequest)}
    (h : past.Pairwise fun t u => Descends t.before u.before) (call : Nat) : (seen past call).Pairwise Descends :=
  List.pairwise_map.mpr (h.filter _)

/-- Two entries with one number, found by one call at two moments, are the same. -/
theorem history_sealed_eq (options : CacheOptions) (clock : Clock)
    (moves : List (System.Move CacheRequest CacheEvent)) {call : Nat} {xs ys : List Cache} {s s' : Cache}
    (hs : seen (history options clock moves).past call = s :: xs ++ s' :: ys) {e e' : CacheEntry}
    (he : e ∈ s.entries) (he' : e' ∈ s'.entries) (hseq : e'.seq = e.seq) : e'.sealed = e.sealed := by
  obtain ⟨hacc, hdesc⟩ := history_descends options clock moves
  have hpair := seen_descends hdesc call
  rw [hs] at hpair
  have hdescends : Descends s s' := (List.pairwise_cons.mp hpair).1 s' (by simp)
  have hmem : s ∈ seen (history options clock moves).past call := by simp [hs]
  obtain ⟨t, ht, -, rfl⟩ := System.mem_seen hmem
  exact hdescends.sealed_eq (hacc t ht) he he' hseq

/-- What a section of a lookup takes out is what its first section found. -/
theorem survives_lookup (options : CacheOptions) (clock : Clock)
    (moves : List (System.Move CacheRequest CacheEvent)) {t : System.Taken Cache CacheRequest}
    (ht : t ∈ (history options clock moves).past) (hget : t.request = .get store key) {e : CacheEntry}
    (he : e ∈ t.before.entries) :
    Survives e t.after ∨
      ∃ e₀, examined? (history options clock moves).past t.call store key = some e₀ ∧ e₀.sealed = e.sealed := by
  have hacc := (history_descends options clock moves).1 t ht
  obtain ⟨xs, ys, hpast⟩ := List.append_of_mem ht
  have hat := System.seen_eq_append hpast
  have htakes := (System.run_faithful system _ moves).taken xs t ys hpast
  rw [hget] at htakes
  obtain htakes | ⟨_, _, _, -, -, hpure⟩ := Routine.takes_bind htakes
  · obtain ⟨hnil, hafter⟩ | hafter | ⟨first, asked, e₀, stale, hxs, he₀, hafter⟩ := get_takes htakes <;>
      rw [hafter]
    · refine (survives_beginLookup hacc he store key).imp_right fun hfind => ⟨e, ?_, rfl⟩
      rw [examined?, hat, hnil]
      exact hfind
    · exact .inl ⟨e, he, rfl⟩
    · refine (survives_endLookup hacc he store key e₀.seq stale).imp_right fun hseq => ⟨e₀, ?_, ?_⟩
      · rw [examined?, hat, hxs]
        exact he₀
      · rw [hxs] at hat
        exact (history_sealed_eq options clock moves hat (mem_of_find? he₀) he hseq).symm
  · exact (Routine.not_takes_pure hpure).elim

/-- However requests and events from outside are interleaved: a lookup that returns a
value has found an entry in its first section, asked for every dependency of that
entry by its caching time, none of which had changed, and found the same entry, with
that value, in its last section. And no section of a lookup takes out an entry other
than the one its first section found, so none that was set since then. -/
theorem lookups_are_safe (options : CacheOptions) (clock : Clock)
    (moves : List (System.Move CacheRequest CacheEvent)) :
    let w := history options clock moves
    (∀ i store key v, w.calls[i]? = some ⟨.get store key, .done (.value (some v))⟩ →
      ∃ first asked last e₀ e, seen w.past i = first :: asked ++ [last] ∧ first.find? store key = some e₀ ∧
        last.find? store key = some e ∧ e.sealed = e₀.sealed ∧ e.data = v ∧
        List.Forall₂ (fun d s => changedSince d e.cachedAt s = false) e.dependencies asked) ∧
    (∀ t ∈ w.past, ∀ store key, t.request = .get store key → ∀ e ∈ t.before.entries,
      Survives e t.after ∨ ∃ e₀, examined? w.past t.call store key = some e₀ ∧ e₀.sealed = e.sealed) ∧
    (∀ t ∈ w.past, ∀ store key, t.request = .get store key → ∀ first, (seen w.past t.call).head? = some first →
      ∀ e ∈ t.before.entries, first.nextSeq ≤ e.seq → Survives e t.after) := by
  intro w
  refine ⟨fun i store key v hi => ?_, fun t ht store key hget e he => survives_lookup options clock moves ht hget he,
    fun t ht store key hget first hfirst e he hlt => ?_⟩
  · obtain ⟨xs, ys, r, hxs, hr, hreply⟩ := Routine.answers_bind ((System.run_faithful system _ moves).rest i _ hi)
    obtain ⟨rfl, hr'⟩ := Routine.answers_pure hreply
    obtain rfl : r = some v := CacheReply.value.inj hr'
    obtain ⟨first, asked, last, e₀, e, rfl, he₀, he, hseq, hv, hasked⟩ := get_answers hr
    rw [List.append_nil] at hxs
    have hsealed := history_sealed_eq options clock moves hxs (mem_of_find? he₀) (mem_of_find? he) hseq
    have hdependencies : e.dependencies = e₀.dependencies := (congrArg CacheEntry.dependencies hsealed :)
    have hcachedAt : e.cachedAt = e₀.cachedAt := (congrArg CacheEntry.cachedAt hsealed :)
    exact ⟨_, asked, last, e₀, e, hxs, he₀, he, hsealed, hv, by rw [hdependencies, hcachedAt]; exact hasked⟩
  · refine (survives_lookup options clock moves ht hget he).resolve_right ?_
    rintro ⟨e₀, hexamined, hsealed⟩
    rw [examined?, hfirst] at hexamined
    obtain ⟨u, hu, -, rfl⟩ := System.mem_seen (List.mem_of_head? hfirst)
    have hbelow := ((history_descends options clock moves).1 u hu).below e₀ (mem_of_find? hexamined)
    rw [seq_of_sealed hsealed] at hbelow
    omega

/-- A value is looked up, and another one is set meanwhile. -/
def interruptedLookup : List (System.Move CacheRequest CacheEvent) :=
  [.start (.set .symbols "a" .null ["b"]), .go 0, .start (.get .symbols "a"), .go 1,
    .start (.set .symbols "c" .null []), .go 2, .go 1, .go 1]

theorem interrupted_lookup_answers :
    let w := history {} {} interruptedLookup
    w.calls[1]? = some ⟨.get .symbols "a", .done (.value (some .null))⟩ ∧
      ∃ first asked last e₀ e, seen w.past 1 = first :: asked ++ [last] ∧ first.find? .symbols "a" = some e₀ ∧
        last.find? .symbols "a" = some e ∧ e.sealed = e₀.sealed ∧ e.data = .null ∧
        List.Forall₂ (fun d s => changedSince d e.cachedAt s = false) e.dependencies asked := by
  have hanswer : (history {} {} interruptedLookup).calls[1]? =
      some ⟨.get .symbols "a", .done (.value (some .null))⟩ := by with_unfolding_all rfl
  exact ⟨hanswer, (lookups_are_safe {} {} interruptedLookup).1 1 .symbols "a" .null hanswer⟩

end Cache

end CodeAtlas
