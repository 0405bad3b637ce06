import CodeAtlas.Query.ResultCache
import Mathlib.Data.List.Induction
import Mathlib.Data.List.Nodup
import Mathlib.Order.Basic

/-! How long a result is remembered.

Whatever is put in is held (`mem_keys_apply`). The keys of a result cache stand in the order
in which their stays began: a new key comes last, a new value under a key that is held moves
nothing, and a full cache lets its first key go (`keys_apply`). Every call keeps this
(`Orderly.apply`), where a stay is told by the caches after the calls before it alone
(`StaysSince`). So the key that goes next is the one whose stay began earliest, after every
history of calls (`results_leave_in_order`). -/
namespace CodeAtlas.ResultCache

variable {c : ResultCache} {key k : String} {r : QueryResult} {e : String × QueryResult}

/-! ### Keys and values -/

/-- The keys that are held. -/
def keys (c : ResultCache) : List String := c.entries.map (·.1)

theorem contains_iff : c.contains key = true ↔ key ∈ c.keys := by
  simp [contains, keys]

theorem mem_of_get? (h : c.get? key = some r) : (key, r) ∈ c.entries := by
  obtain ⟨xs, ys, he, -⟩ := List.lookup_eq_some_iff.mp h
  simp [he]

theorem get?_eq_none_iff : c.get? key = none ↔ ∀ e ∈ c.entries, e.1 ≠ key := by
  rw [get?, List.lookup_eq_none_iff]
  simp only [bne_iff_ne, ne_comm]

theorem get?_eq_none_of_not_mem (h : key ∉ c.keys) : c.get? key = none :=
  get?_eq_none_iff.mpr fun _ he heq => h (heq ▸ List.mem_map_of_mem he)

/-- With one entry for each key, an entry is what its key is looked up to. -/
theorem get?_of_mem (h : c.keys.Nodup) (he : e ∈ c.entries) : c.get? e.1 = some e.2 := by
  cases hfound : c.get? e.1 with
  | none => exact absurd rfl (get?_eq_none_iff.mp hfound e he)
  | some r => exact congrArg (some ·.2) (List.inj_on_of_nodup_map h (mem_of_get? hfound) he rfl)

theorem mem_insert_cases (h : e ∈ (c.insert key r).entries) : e = (key, r) ∨ e ∈ c.entries ∧ e.1 ≠ key := by
  unfold insert at h
  split at h
  · obtain ⟨d, hd, rfl⟩ := List.mem_map.mp h
    split
    · exact .inl rfl
    · rename_i hne
      exact .inr ⟨hd, fun heq => hne (beq_iff_eq.mpr heq)⟩
  · rename_i hnew
    rcases List.mem_append.mp h with h | h
    · have he : e ∈ c.entries := by
        split at h
        · exact List.mem_of_mem_drop h
        · exact h
      refine .inr ⟨he, ?_⟩
      rintro rfl
      exact hnew (contains_iff.mpr (List.mem_map_of_mem he))
    · exact .inl (List.mem_singleton.mp h)

theorem mem_insert (h : e ∈ (c.insert key r).entries) : e = (key, r) ∨ e ∈ c.entries :=
  (mem_insert_cases h).imp_right And.left

/-- A new value under a key that is held moves nothing. -/
theorem keys_insert_of_mem (h : key ∈ c.keys) : (c.insert key r).keys = c.keys := by
  rw [insert, if_pos (contains_iff.mpr h), keys, keys, List.map_map]
  refine List.map_congr_left fun e _ => ?_
  by_cases he : e.1 = key <;> simp [he]

/-- A new key comes last, and the first one goes if there is no room for both. -/
theorem keys_insert_of_not_mem (h : key ∉ c.keys) :
    (c.insert key r).keys = (if c.capacity ≤ c.size then c.keys.drop 1 else c.keys) ++ [key] := by
  rw [insert, if_neg (mt contains_iff.mp h), keys, List.map_append, size]
  split
  · rw [List.map_drop]
    rfl
  · rfl

theorem mem_keys_insert_self (c : ResultCache) (key : String) (r : QueryResult) : key ∈ (c.insert key r).keys := by
  by_cases h : key ∈ c.keys
  · rwa [keys_insert_of_mem h]
  · rw [keys_insert_of_not_mem h]
    exact List.mem_append_right _ (List.mem_singleton_self key)

theorem eq_or_mem_of_mem_keys_insert (h : k ∈ (c.insert key r).keys) : k = key ∨ k ∈ c.keys := by
  obtain ⟨e, he, rfl⟩ := List.mem_map.mp h
  exact (mem_insert he).imp (congrArg Prod.fst) fun he => List.mem_map_of_mem he

/-! ### Calls -/

/-- A call of a result cache. -/
inductive Call where
  | insert (key : String) (result : QueryResult)
  | get (key : String)
  | clear

namespace Call

/-- What a call does to a cache. A look-up only reads it. -/
def apply : Call → ResultCache → ResultCache
  | insert key result, c => c.insert key result
  | get _, c => c
  | clear, c => c.clear

/-- The value that is inserted under a key. -/
def value? (key : String) : Call → Option QueryResult
  | insert k result => if k = key then some result else none
  | get _ | clear => none

end Call

/-- The cache after some calls, from a new one. -/
def after (capacity : Nat) (calls : List Call) : ResultCache :=
  calls.foldl (fun c call => call.apply c) (ofCapacity capacity)

/-- The value of the latest insertion under a key. -/
def latest (calls : List Call) (key : String) : Option QueryResult := (calls.filterMap (·.value? key)).getLast?

/-- The key was put in by the call with number `n`, and was held from then on. -/
structure StaysSince (capacity : Nat) (calls : List Call) (key : String) (n : Nat) : Prop where
  past : n < calls.length
  before : key ∉ (after capacity (calls.take n)).keys
  since : ∀ m, n < m → m ≤ calls.length → key ∈ (after capacity (calls.take m)).keys

/-- The key whose stay began earliest. -/
structure GoesNext (capacity : Nat) (calls : List Call) (key : String) : Prop where
  held : key ∈ (after capacity calls).keys
  earliest : ∀ other ∈ (after capacity calls).keys, other ≠ key →
    ∀ m n, StaysSince capacity calls key m → StaysSince capacity calls other n → m < n

variable {capacity : Nat} {calls : List Call} {call : Call} {m n : Nat}

theorem after_concat (capacity : Nat) (calls : List Call) (call : Call) :
    after capacity (calls ++ [call]) = call.apply (after capacity calls) := by
  rw [after, List.foldl_append]
  rfl

/-- What one call does to the keys: some of them stay, in order, and a new one may be added. -/
theorem keys_apply (call : Call) (c : ResultCache) :
    ∃ (kept : List String) (new : Option String), (call.apply c).keys = kept ++ new.toList ∧
      kept.Sublist c.keys ∧ ∀ k ∈ new, k ∉ c.keys := by
  cases call with
  | insert key result =>
    by_cases hkey : key ∈ c.keys
    · exact ⟨c.keys, none, (keys_insert_of_mem hkey).trans (List.append_nil _).symm, .refl _, by simp⟩
    · refine ⟨_, some key, keys_insert_of_not_mem hkey, ?_, by simpa using hkey⟩
      split
      · exact List.drop_sublist 1 _
      · exact .refl _
  | get key => exact ⟨c.keys, none, (List.append_nil _).symm, .refl _, by simp⟩
  | clear => exact ⟨[], none, rfl, List.nil_sublist _, by simp⟩

/-- A key that is not held is held after a call that puts it in, and after no other. -/
theorem mem_keys_apply (call : Call) (hkey : key ∉ c.keys) :
    key ∈ (call.apply c).keys ↔ ∃ result, call = .insert key result := by
  cases call with
  | get k => simpa [Call.apply] using hkey
  | clear => simp [Call.apply, clear, keys]
  | insert other result =>
    constructor
    · intro hheld
      obtain rfl := (eq_or_mem_of_mem_keys_insert hheld).resolve_right hkey
      exact ⟨result, rfl⟩
    · rintro ⟨result', heq⟩
      obtain ⟨rfl, -⟩ := Call.insert.inj heq
      exact mem_keys_insert_self c other result

/-! ### Stays -/

theorem StaysSince.unique (h : StaysSince capacity calls key m) (h' : StaysSince capacity calls key n) : m = n := by
  rcases Nat.lt_trichotomy m n with hlt | heq | hgt
  · exact absurd (h.since n hlt (Nat.le_of_lt h'.past)) h'.before
  · exact heq
  · exact absurd (h'.since m hgt (Nat.le_of_lt h.past)) h.before

/-- A key that one more call leaves in its place has been there for as long as before. -/
theorem staysSince_concat (h : key ∈ (after capacity calls).keys)
    (h' : key ∈ (after capacity (calls ++ [call])).keys) :
    StaysSince capacity (calls ++ [call]) key n ↔ StaysSince capacity calls key n := by
  have hlength : (calls ++ [call]).length = calls.length + 1 := by simp
  constructor
  · rintro ⟨hpast, hbefore, hsince⟩
    have hle : n ≤ calls.length := by omega
    rw [List.take_append_of_le_length hle] at hbefore
    have hne : n ≠ calls.length := by
      rintro rfl
      exact hbefore (by rwa [List.take_length])
    refine ⟨by omega, hbefore, fun m hnm hm => ?_⟩
    have hheld := hsince m hnm (by omega)
    rwa [List.take_append_of_le_length hm] at hheld
  · rintro ⟨hpast, hbefore, hsince⟩
    refine ⟨by omega, by rwa [List.take_append_of_le_length (Nat.le_of_lt hpast)], fun m hnm hm => ?_⟩
    rcases Nat.lt_or_ge calls.length m with hlast | hle
    · rwa [List.take_of_length_le (by omega)]
    · rw [List.take_append_of_le_length hle]
      exact hsince m hnm hle

/-- The stay of a key that was not held begins with the call that puts it in. -/
theorem staysSince_new (h : key ∉ (after capacity calls).keys)
    (h' : key ∈ (after capacity (calls ++ [call])).keys) :
    StaysSince capacity (calls ++ [call]) key calls.length := by
  refine ⟨by simp, ?_, fun m hm hle => ?_⟩
  · rwa [List.take_left]
  · have hall : (calls ++ [call]).length ≤ m := by simpa using Nat.succ_le_of_lt hm
    rwa [List.take_of_length_le hall]

/-- The keys stand in the order in which their stays began. -/
structure Orderly (capacity : Nat) (calls : List Call) : Prop where
  distinct : (after capacity calls).keys.Nodup
  began : ∀ key ∈ (after capacity calls).keys, ∃ n, StaysSince capacity calls key n
  ordered : (after capacity calls).keys.Pairwise fun a b =>
    ∀ m n, StaysSince capacity calls a m → StaysSince capacity calls b n → m < n

theorem orderly_nil (capacity : Nat) : Orderly capacity [] := ⟨.nil, by simp [after, ofCapacity, keys], .nil⟩

theorem Orderly.concat (h : Orderly capacity calls) (call : Call) : Orderly capacity (calls ++ [call]) := by
  obtain ⟨kept, new, hkeys, hkept, hnew⟩ := keys_apply call (after capacity calls)
  rw [← after_concat] at hkeys
  have hstays : ∀ key ∈ kept, ∀ n,
      StaysSince capacity (calls ++ [call]) key n ↔ StaysSince capacity calls key n := fun key hkey n =>
    staysSince_concat (hkept.mem hkey) (hkeys ▸ List.mem_append_left _ hkey)
  have hbegins : ∀ key ∈ new.toList, StaysSince capacity (calls ++ [call]) key calls.length := fun key hkey =>
    staysSince_new (hnew key (Option.mem_toList.mp hkey)) (hkeys ▸ List.mem_append_right _ hkey)
  refine ⟨?_, fun key hkey => ?_, ?_⟩
  · rw [hkeys, List.nodup_append]
    refine ⟨hkept.nodup h.distinct, by cases new <;> simp, fun a ha b hb heq => ?_⟩
    exact hnew b (Option.mem_toList.mp hb) (heq ▸ hkept.mem ha)
  · rw [hkeys] at hkey
    rcases List.mem_append.mp hkey with hkey | hkey
    · obtain ⟨n, hn⟩ := h.began key (hkept.mem hkey)
      exact ⟨n, (hstays key hkey n).mpr hn⟩
    · exact ⟨_, hbegins key hkey⟩
  · rw [hkeys, List.pairwise_append]
    refine ⟨?_, by cases new <;> simp, fun a ha b hb m n hm hn => ?_⟩
    · refine (h.ordered.sublist hkept).imp_of_mem fun ha hb hab m n hm hn => ?_
      exact hab m n ((hstays _ ha m).mp hm) ((hstays _ hb n).mp hn)
    · rw [hn.unique (hbegins b hb)]
      exact ((hstays a ha m).mp hm).past

theorem orderly (capacity : Nat) (calls : List Call) : Orderly capacity calls := by
  induction calls using List.reverseRecOn with
  | nil => exact orderly_nil capacity
  | append_singleton calls call ih => exact ih.concat call

/-- The first key goes next. -/
theorem goesNext_iff : GoesNext capacity calls key ↔ (after capacity calls).keys.head? = some key := by
  obtain ⟨distinct, began, ordered⟩ := orderly capacity calls
  constructor
  · rintro ⟨hheld, hearliest⟩
    cases hkeys : (after capacity calls).keys with
    | nil => simp [hkeys] at hheld
    | cons first rest =>
      rw [hkeys] at hheld hearliest began ordered
      by_contra hne
      have hne : first ≠ key := fun h => hne (congrArg some h)
      obtain ⟨m, hm⟩ := began key hheld
      obtain ⟨n, hn⟩ := began first List.mem_cons_self
      have hlater : n < m := by
        refine (List.pairwise_cons.mp ordered).1 key ?_ n m hn hm
        exact (List.mem_cons.mp hheld).resolve_left hne.symm
      exact Nat.lt_asymm hlater (hearliest first List.mem_cons_self hne m n hm hn)
  · intro hfirst
    obtain ⟨rest, hkeys⟩ := List.head?_eq_some_iff.mp hfirst
    refine ⟨hkeys ▸ List.mem_cons_self, fun other hother hne => ?_⟩
    rw [hkeys] at hother ordered
    exact (List.pairwise_cons.mp ordered).1 other ((List.mem_cons.mp hother).resolve_left hne)

/-! ### Room -/

theorem capacity_after (capacity : Nat) (calls : List Call) : (after capacity calls).capacity = max 1 capacity := by
  induction calls using List.reverseRecOn with
  | nil => exact Nat.max_comm capacity 1
  | append_singleton calls call ih =>
    rw [after_concat, ← ih]
    cases call with
    | insert key result =>
      show ((after capacity calls).insert key result).capacity = _
      unfold insert
      split <;> rfl
    | get | clear => rfl

theorem length_keys (c : ResultCache) : c.keys.length = c.size := List.length_map _

theorem size_after (capacity : Nat) (calls : List Call) : (after capacity calls).size ≤ max 1 capacity := by
  induction calls using List.reverseRecOn with
  | nil => exact Nat.zero_le _
  | append_singleton calls call ih =>
    have hcapacity := capacity_after capacity calls
    rw [after_concat, ← length_keys]
    rw [← length_keys] at ih
    cases call with
    | insert key result =>
      show ((after capacity calls).insert key result).keys.length ≤ _
      by_cases hkey : key ∈ (after capacity calls).keys
      · rwa [keys_insert_of_mem hkey]
      · rw [keys_insert_of_not_mem hkey, ← length_keys, hcapacity, List.length_append, List.length_singleton]
        split
        · rw [List.length_drop]
          omega
        · omega
    | get => exact ih
    | clear => exact Nat.zero_le _

/-- When a new key is put in, the first key is gone if the cache was full. -/
theorem not_mem_keys_insert {other : String} (hnodup : c.keys.Nodup) (hkey : key ∈ c.keys) (hother : other ∉ c.keys) :
    key ∉ (c.insert other r).keys ↔ c.capacity ≤ c.size ∧ c.keys.head? = some key := by
  have hne : key ≠ other := fun h => hother (h ▸ hkey)
  rw [keys_insert_of_not_mem hother, List.mem_append, List.mem_singleton, or_iff_left hne]
  split
  · rename_i hfull
    rw [and_iff_right hfull]
    cases hkeys : c.keys with
    | nil => simp [hkeys] at hkey
    | cons first rest =>
      rw [hkeys] at hkey hnodup
      have hfirst : first ∉ rest := (List.nodup_cons.mp hnodup).1
      rw [List.drop_succ_cons, List.drop_zero, List.head?_cons, Option.some.injEq]
      refine ⟨fun hgone => ((List.mem_cons.mp hkey).resolve_right hgone).symm, ?_⟩
      rintro rfl
      exact hfirst
  · rename_i hroom
    exact ⟨fun hgone => absurd hkey hgone, fun h => absurd h.1 hroom⟩

/-- A key is gone after a call that empties the cache, or that puts a new key into a full
cache when it goes next. -/
theorem not_mem_keys_apply (call : Call) (hkey : key ∈ (after capacity calls).keys) :
    key ∉ (call.apply (after capacity calls)).keys ↔
      call = .clear ∨ ∃ other result, call = .insert other result ∧ other ∉ (after capacity calls).keys ∧
        (after capacity calls).size = max 1 capacity ∧ GoesNext capacity calls key := by
  cases call with
  | get k => simpa [Call.apply] using hkey
  | clear => simp [Call.apply, clear, keys]
  | insert other result =>
    have hroom : (after capacity calls).capacity ≤ (after capacity calls).size ↔
        (after capacity calls).size = max 1 capacity := by
      rw [capacity_after]
      exact ⟨fun hfull => Nat.le_antisymm (size_after capacity calls) hfull, fun hsize => Nat.le_of_eq hsize.symm⟩
    show key ∉ ((after capacity calls).insert other result).keys ↔ _
    by_cases hother : other ∈ (after capacity calls).keys
    · simp [keys_insert_of_mem hother, hkey, hother]
    · rw [not_mem_keys_insert (orderly capacity calls).distinct hkey hother, hroom, goesNext_iff]
      simp [hother]

/-! ### Values -/

theorem latest_concat (calls : List Call) (call : Call) (key : String) :
    latest (calls ++ [call]) key = (call.value? key).or (latest calls key) := by
  rw [latest, latest, List.filterMap_append, List.getLast?_append]
  cases h : call.value? key <;> simp [h]

theorem latest_of_mem (he : e ∈ (after capacity calls).entries) : latest calls e.1 = some e.2 := by
  induction calls using List.reverseRecOn with
  | nil => cases he
  | append_singleton calls call ih =>
    rw [after_concat] at he
    rw [latest_concat]
    cases call with
    | insert key result =>
      rcases mem_insert_cases he with rfl | ⟨he, hne⟩
      · simp [Call.value?]
      · simpa [Call.value?, hne.symm] using ih he
    | get => exact ih he
    | clear => cases he

/-- A key that is held is looked up to the value of its latest insertion. -/
theorem get?_eq_latest (hkey : key ∈ (after capacity calls).keys) :
    ∃ r, latest calls key = some r ∧ (after capacity calls).get? key = some r := by
  obtain ⟨e, he, rfl⟩ := List.mem_map.mp hkey
  exact ⟨e.2, latest_of_mem he, get?_of_mem (orderly capacity calls).distinct he⟩

/-- A result that has just been put in is found. -/
theorem get?_insert_self (capacity : Nat) (calls : List Call) (key : String) (result : QueryResult) :
    ((after capacity calls).insert key result).get? key = some result := by
  have hafter : after capacity (calls ++ [.insert key result]) = (after capacity calls).insert key result :=
    after_concat capacity calls (.insert key result)
  obtain ⟨r, hlatest, hget⟩ := get?_eq_latest (hafter ▸ mem_keys_insert_self (after capacity calls) key result)
  rw [latest_concat, Call.value?, if_pos rfl, Option.some_or] at hlatest
  rw [← hafter, hget, hlatest]

/-! ### Every history -/

/-- Whatever the capacity and the calls: no more results are held than there is room for,
which is for one at least. A key that is held is looked up to its latest value, and any other
to none. What is put in is held and looked up, and a key that is not held comes in by no other
call. Every key that is held has been so since one of the calls, and one of them has been held
longest; it is gone after the cache is cleared, and is the only one to go when a new key is
put into a full cache, while nothing else takes a key out. Neither looking up nor a new value
under a key that is held changes which key goes next. -/
theorem results_leave_in_order (capacity : Nat) (calls : List Call) :
    let c := after capacity calls
    c.size ≤ max 1 capacity ∧
      (∀ key ∈ c.keys, ∃ r, latest calls key = some r ∧ c.get? key = some r) ∧
      (∀ key, key ∉ c.keys → c.get? key = none) ∧
      (∀ key result, key ∈ (c.insert key result).keys ∧ (c.insert key result).get? key = some result) ∧
      (∀ call : Call, ∀ key ∉ c.keys, key ∈ (call.apply c).keys ↔ ∃ result, call = .insert key result) ∧
      (∀ key ∈ c.keys, ∃! n, StaysSince capacity calls key n) ∧
      (c.keys ≠ [] → ∃! key, GoesNext capacity calls key) ∧
      (∀ call : Call, ∀ key ∈ c.keys, key ∉ (call.apply c).keys ↔
        call = .clear ∨ ∃ other result, call = .insert other result ∧ other ∉ c.keys ∧
          c.size = max 1 capacity ∧ GoesNext capacity calls key) ∧
      ∀ call : Call, ((∃ k, call = .get k) ∨ ∃ k result, call = .insert k result ∧ k ∈ c.keys) →
        ∀ key, GoesNext capacity (calls ++ [call]) key ↔ GoesNext capacity calls key := by
  intro c
  refine ⟨size_after capacity calls, fun _ => get?_eq_latest, fun _ => get?_eq_none_of_not_mem,
    fun key result => ⟨mem_keys_insert_self c key result, get?_insert_self capacity calls key result⟩,
    fun call _ => mem_keys_apply call, fun key hkey => ?_, fun hheld => ?_, fun call _ => not_mem_keys_apply call,
    fun call hcall key => ?_⟩
  · obtain ⟨n, hn⟩ := (orderly capacity calls).began key hkey
    exact ⟨n, hn, fun m hm => hm.unique hn⟩
  · obtain ⟨first, rest, hkeys⟩ := List.exists_cons_of_ne_nil hheld
    have hfirst : c.keys.head? = some first := congrArg List.head? hkeys
    exact ⟨first, goesNext_iff.mpr hfirst, fun key hkey =>
      Option.some.inj ((goesNext_iff.mp hkey).symm.trans hfirst)⟩
  · have hkeys : (after capacity (calls ++ [call])).keys = c.keys := by
      rw [after_concat]
      obtain ⟨k, rfl⟩ | ⟨k, result, rfl, hk⟩ := hcall
      · rfl
      · exact keys_insert_of_mem hk
    rw [goesNext_iff, goesNext_iff, hkeys]

/-- What was looked up last goes first all the same. -/
example : (after 2 [.insert "a" {}, .insert "b" {}, .get "a", .insert "c" {}]).keys = ["b", "c"] := by decide

end CodeAtlas.ResultCache
