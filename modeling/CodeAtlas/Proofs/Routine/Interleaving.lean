import CodeAtlas.Routine
import Mathlib.Data.List.Induction

/-! Routines side by side.

A `System` answers requests by routines over one state, which events from outside
change as well. In a `World` any number of calls are under way. A move begins a
call, lets one call take its next section, or is an event from outside, so a list
of moves is one order in which everything happened (`run`). The world keeps the
sections that were taken, with the state before and after each (`past`).

Two facts hold of every run. What a call has left to do is its routine replayed on
the states its own sections found, and each section is the one its routine had come
to (`run_faithful`), so nothing else reaches a call. And a property of state and past
that every section and every event keeps is kept by the run (`run_keeps`), where it
is enough to know what the sections of each routine do (`Does`), or what each of them
does after those of its call before it (`run_keeps_taken`). -/
namespace CodeAtlas.Routine

variable {σ α β : Type}

/-- The rest of a routine after its next section, and the state after it. To wait
is a section that changes nothing. -/
def next? : Routine σ α → σ → Option (Routine σ α × σ)
  | done _, _ => none
  | step act next, s => some (next (act s).1, (act s).2)
  | pause rest, s => some (rest, s)

/-- What is left of a routine after sections that found these states; none if it does
not have so many. -/
def replay? (r : Routine σ α) : List σ → Option (Routine σ α)
  | [] => some r
  | s :: rest => (r.next? s).bind fun p => p.1.replay? rest

theorem replay?_append (r : Routine σ α) (xs ys : List σ) :
    r.replay? (xs ++ ys) = (r.replay? xs).bind (·.replay? ys) := by
  induction xs generalizing r with
  | nil => rfl
  | cons s xs ih =>
    cases h : r.next? s with
    | none => simp [replay?, h]
    | some p => simp [replay?, h, ih]

theorem replay?_snoc {r r' r'' : Routine σ α} {xs : List σ} {s s' : σ} (h : r.replay? xs = some r')
    (hn : r'.next? s = some (r'', s')) : r.replay? (xs ++ [s]) = some r'' := by
  simp [replay?_append, h, replay?, hn]

/-! ### What the sections of a routine do -/

/-- Every section takes a state to one it is related to, whatever was read before. -/
def Does (G : σ → σ → Prop) : Routine σ α → Prop
  | done _ => True
  | step act next => (∀ s, G s (act s).2) ∧ ∀ b, (next b).Does G
  | pause rest => (∀ s, G s s) ∧ rest.Does G

variable {G : σ → σ → Prop}

theorem does_next {r r' : Routine σ α} {s s' : σ} (hr : r.Does G) (h : r.next? s = some (r', s')) :
    G s s' ∧ r'.Does G := by
  cases r with
  | done a => cases h
  | step act next =>
    cases h
    exact ⟨hr.1 s, hr.2 _⟩
  | pause rest =>
    cases h
    exact ⟨hr.1 s, hr.2⟩

theorem does_bind {r : Routine σ α} {f : α → Routine σ β} (hr : r.Does G) (hf : ∀ a, (f a).Does G) :
    (r >>= f).Does G := by
  induction r with
  | done a => exact hf a
  | step act next ih => exact ⟨hr.1, fun b => ih b (hr.2 b)⟩
  | pause rest ih => exact ⟨hr.1, ih hr.2⟩

theorem does_atomic {act : StateM σ α} (h : ∀ s, G s (act s).2) : (atomic act).Does G :=
  ⟨h, fun _ => trivial⟩

theorem Does.mono {H : σ → σ → Prop} {r : Routine σ α} (hr : r.Does G) (h : ∀ s s', G s s' → H s s') : r.Does H := by
  induction r with
  | done a => trivial
  | step act next ih => exact ⟨fun s => h _ _ (hr.1 s), fun b => ih b (hr.2 b)⟩
  | pause rest ih => exact ⟨fun s => h _ _ (hr.1 s), ih hr.2⟩

/-! ### What sections of a routine follow each other -/

/-- After sections that found these states the routine is done. -/
def Answers (r : Routine σ α) (xs : List σ) (a : α) : Prop := r.replay? xs = some (done a)

/-- After sections that found these states, the next one takes a state to another. -/
def Takes (r : Routine σ α) (xs : List σ) (s s' : σ) : Prop :=
  ∃ q q', r.replay? xs = some q ∧ q.next? s = some (q', s')

/-- A composed routine is in its first part, or in its second with the first done. -/
theorem replay?_bind {r : Routine σ α} {f : α → Routine σ β} {xs : List σ} {q : Routine σ β}
    (h : (r >>= f).replay? xs = some q) :
    (∃ r', r.replay? xs = some r' ∧ q = r' >>= f) ∨
    ∃ ys zs a, xs = ys ++ zs ∧ r.Answers ys a ∧ (f a).replay? zs = some q := by
  induction xs generalizing r with
  | nil => exact .inl ⟨r, rfl, (Option.some.inj h).symm⟩
  | cons s xs ih =>
    -- The first part takes its section, and what is left of it is composed as before.
    have hlater : ∀ r' s', r.next? s = some (r', s') → (r' >>= f).replay? xs = some q →
        (∃ r', r.replay? (s :: xs) = some r' ∧ q = r' >>= f) ∨
        ∃ ys zs a, s :: xs = ys ++ zs ∧ r.Answers ys a ∧ (f a).replay? zs = some q := by
      intro r' s' hn h
      obtain ⟨r'', hr, rfl⟩ | ⟨ys, zs, a, rfl, hr, hf⟩ := ih h
      · exact .inl ⟨r'', by rw [replay?, hn]; exact hr, rfl⟩
      · exact .inr ⟨s :: ys, zs, a, rfl, by rw [Answers, replay?, hn]; exact hr, hf⟩
    cases r with
    | done a => exact .inr ⟨[], s :: xs, a, rfl, rfl, h⟩
    | step act next => exact hlater _ _ rfl h
    | pause rest => exact hlater _ _ rfl h

theorem answers_bind {r : Routine σ α} {f : α → Routine σ β} {xs : List σ} {b : β}
    (h : (r >>= f).Answers xs b) : ∃ ys zs a, xs = ys ++ zs ∧ r.Answers ys a ∧ (f a).Answers zs b := by
  obtain ⟨r', hr, hq⟩ | h := replay?_bind h
  · cases r' with
    | done a => exact ⟨xs, [], a, (List.append_nil xs).symm, hr, by rw [Answers, replay?, hq]; rfl⟩
    | step act next => cases hq
    | pause rest => cases hq
  · exact h

theorem takes_bind {r : Routine σ α} {f : α → Routine σ β} {xs : List σ} {s s' : σ}
    (h : (r >>= f).Takes xs s s') :
    r.Takes xs s s' ∨ ∃ ys zs a, xs = ys ++ zs ∧ r.Answers ys a ∧ (f a).Takes zs s s' := by
  obtain ⟨q, q', hq, hn⟩ := h
  obtain ⟨r', hr, rfl⟩ | ⟨ys, zs, a, hxs, ha, hf⟩ := replay?_bind hq
  · cases r' with
    | done a => exact .inr ⟨xs, [], a, (List.append_nil xs).symm, hr, f a, q', rfl, hn⟩
    | step act next =>
      cases hn
      exact .inl ⟨_, _, hr, rfl⟩
    | pause rest =>
      cases hn
      exact .inl ⟨_, _, hr, rfl⟩
  · exact .inr ⟨ys, zs, a, hxs, ha, q, q', hf, hn⟩

theorem answers_pure {a b : α} {xs : List σ} (h : (pure a : Routine σ α).Answers xs b) : xs = [] ∧ a = b := by
  cases xs with
  | nil =>
    cases h
    exact ⟨rfl, rfl⟩
  | cons s xs => cases h

theorem not_takes_pure {a : α} {xs : List σ} {s s' : σ} : ¬ (pure a : Routine σ α).Takes xs s s' := by
  rintro ⟨q, q', hq, hn⟩
  cases xs with
  | nil =>
    cases hq
    cases hn
  | cons s xs => cases hq

theorem answers_atomic {act : StateM σ α} {xs : List σ} {a : α} (h : (atomic act).Answers xs a) :
    ∃ s, xs = [s] ∧ (act s).1 = a := by
  cases xs with
  | nil => cases h
  | cons s xs =>
    have h : (pure (act s).1 : Routine σ α).Answers xs a := h
    obtain ⟨rfl, ha⟩ := answers_pure h
    exact ⟨s, rfl, ha⟩

theorem takes_atomic {act : StateM σ α} {xs : List σ} {s s' : σ} (h : (atomic act).Takes xs s s') :
    xs = [] ∧ s' = (act s).2 := by
  obtain ⟨q, q', hq, hn⟩ := h
  cases xs with
  | nil =>
    cases hq
    cases hn
    exact ⟨rfl, rfl⟩
  | cons t xs =>
    have h : (pure (act t).1 : Routine σ α).Takes xs s s' := ⟨q, q', hq, hn⟩
    exact (not_takes_pure h).elim

/-- A routine that begins with one section. -/
theorem answers_atomic_bind {act : StateM σ α} {f : α → Routine σ β} {xs : List σ} {b : β}
    (h : (atomic act >>= f).Answers xs b) : ∃ s zs, xs = s :: zs ∧ (f (act s).1).Answers zs b := by
  obtain ⟨ys, zs, a, rfl, ha, hf⟩ := answers_bind h
  obtain ⟨s, rfl, rfl⟩ := answers_atomic ha
  exact ⟨s, zs, rfl, hf⟩

theorem takes_atomic_bind {act : StateM σ α} {f : α → Routine σ β} {xs : List σ} {s s' : σ}
    (h : (atomic act >>= f).Takes xs s s') :
    (xs = [] ∧ s' = (act s).2) ∨ ∃ t zs, xs = t :: zs ∧ (f (act t).1).Takes zs s s' := by
  obtain hact | ⟨ys, zs, a, rfl, ha, hf⟩ := takes_bind h
  · exact .inl (takes_atomic hact)
  · obtain ⟨t, rfl, rfl⟩ := answers_atomic ha
    exact .inr ⟨t, zs, rfl, hf⟩

theorem takes_does {r : Routine σ α} {xs : List σ} {s s' : σ} (hr : r.Does G) (h : r.Takes xs s s') : G s s' := by
  obtain ⟨q, q', hq, hn⟩ := h
  induction xs generalizing r with
  | nil =>
    cases hq
    exact (does_next hr hn).1
  | cons x xs ih =>
    obtain ⟨p, hp, hq⟩ := Option.bind_eq_some_iff.mp hq
    exact ih (does_next hr hp).2 hq

end CodeAtlas.Routine

namespace CodeAtlas

/-- Requests answered by routines, and events from outside, over one state. -/
structure System (σ ρ α ε : Type) where
  routine : ρ → Routine σ α
  outside : ε → σ → σ

namespace System

variable {σ ρ α ε : Type}

/-- A call under way: its request, and what is left to do. -/
structure Call (σ ρ α : Type) where
  request : ρ
  rest : Routine σ α

/-- A section that was taken. -/
structure Taken (σ ρ : Type) where
  /-- The number of the call it belongs to. -/
  call : Nat
  request : ρ
  before : σ
  after : σ

structure World (σ ρ α : Type) where
  state : σ
  calls : List (Call σ ρ α) := []
  /-- The sections taken so far, oldest first. -/
  past : List (Taken σ ρ) := []

inductive Move (ρ ε : Type) where
  | start (request : ρ)
  | go (call : Nat)
  | outside (event : ε)

/-- A call takes its next section. A call that is done does nothing. -/
def proceed (w : World σ ρ α) (i : Nat) (c : Call σ ρ α) : World σ ρ α :=
  match c.rest.next? w.state with
  | none => w
  | some (rest, s) =>
    { state := s
      calls := w.calls.set i { c with rest }
      past := w.past ++ [⟨i, c.request, w.state, s⟩] }

def move (S : System σ ρ α ε) (w : World σ ρ α) : Move ρ ε → World σ ρ α
  | .start request => { w with calls := w.calls ++ [⟨request, S.routine request⟩] }
  | .go i =>
    match w.calls[i]? with
    | none => w
    | some c => proceed w i c
  | .outside event => { w with state := S.outside event w.state }

def run (S : System σ ρ α ε) (s : σ) (moves : List (Move ρ ε)) : World σ ρ α :=
  moves.foldl S.move { state := s }

/-- The states the sections of one call found. -/
def seen (past : List (Taken σ ρ)) (i : Nat) : List σ := (past.filter (·.call == i)).map Taken.before

/-- What the call of a section found before that section, in it, and after it. -/
theorem seen_eq_append {past xs ys : List (Taken σ ρ)} {t : Taken σ ρ} (h : past = xs ++ t :: ys) :
    seen past t.call = seen xs t.call ++ t.before :: seen ys t.call := by
  simp [seen, h]

theorem mem_seen {past : List (Taken σ ρ)} {i : Nat} {s : σ} (h : s ∈ seen past i) :
    ∃ t ∈ past, t.call = i ∧ t.before = s := by
  obtain ⟨t, ht, rfl⟩ := List.mem_map.mp h
  exact ⟨t, (List.mem_filter.mp ht).1, by simpa using (List.mem_filter.mp ht).2, rfl⟩

theorem seen_snoc (past : List (Taken σ ρ)) (t : Taken σ ρ) (i : Nat) :
    seen (past ++ [t]) i = if t.call = i then seen past i ++ [t.before] else seen past i := by
  by_cases h : t.call = i <;> simp [seen, h]

variable {S : System σ ρ α ε}

/-- What holds at the start and is kept by every move holds of every run. -/
theorem run_induction {P : World σ ρ α → Prop} {s : σ} (start : P { state := s })
    (keep : ∀ w m, P w → P (S.move w m)) (moves : List (Move ρ ε)) : P (S.run s moves) := by
  induction moves using List.reverseRecOn with
  | nil => exact start
  | append_singleton moves m ih =>
    rw [run, List.foldl_append]
    exact keep _ m ih

/-- All a move can do: a new call, an event, nothing, or one section of one call. -/
theorem move_cases (w : World σ ρ α) (m : Move ρ ε) :
    (∃ request, S.move w m = { w with calls := w.calls ++ [⟨request, S.routine request⟩] }) ∨
    (∃ event, S.move w m = { w with state := S.outside event w.state }) ∨
    S.move w m = w ∨
    ∃ i c rest s, w.calls[i]? = some c ∧ c.rest.next? w.state = some (rest, s) ∧
      S.move w m = { state := s, calls := w.calls.set i { c with rest },
                     past := w.past ++ [⟨i, c.request, w.state, s⟩] } := by
  cases m with
  | start request => exact .inl ⟨request, rfl⟩
  | outside event => exact .inr (.inl ⟨event, rfl⟩)
  | go i =>
    cases hc : w.calls[i]? with
    | none => exact .inr (.inr (.inl (by simp only [move, hc])))
    | some c =>
      cases hn : c.rest.next? w.state with
      | none => exact .inr (.inr (.inl (by simp only [move, hc, proceed, hn])))
      | some p => exact .inr (.inr (.inr ⟨i, c, p.1, p.2, hc, hn, by simp only [move, hc, proceed, hn]⟩))

/-- A call after a move: it was begun by it, or it is as it was, or it took its next section. -/
theorem move_call {w : World σ ρ α} {m : Move ρ ε} {k : Nat} {c' : Call σ ρ α} (h : (S.move w m).calls[k]? = some c') :
    (w.calls[k]? = none ∧ c'.rest = S.routine c'.request) ∨
    ∃ c, w.calls[k]? = some c ∧ c'.request = c.request ∧
      (c'.rest = c.rest ∨ c.rest.next? w.state = some (c'.rest, (S.move w m).state)) := by
  obtain ⟨request, hm⟩ | ⟨event, hm⟩ | hm | ⟨i, c, rest, s', hc, hn, hm⟩ := move_cases (S := S) w m <;> rw [hm] at h ⊢
  · by_cases hk : k < w.calls.length
    · rw [List.getElem?_append_left hk] at h
      exact .inr ⟨c', h, rfl, .inl rfl⟩
    · rw [List.getElem?_append_right (by omega)] at h
      obtain rfl := List.mem_singleton.mp (List.mem_of_getElem? h)
      exact .inl ⟨List.getElem?_eq_none (by omega), rfl⟩
  · exact .inr ⟨c', h, rfl, .inl rfl⟩
  · exact .inr ⟨c', h, rfl, .inl rfl⟩
  · by_cases hik : i = k
    · subst hik
      rw [List.getElem?_set_self (List.getElem?_eq_some_iff.mp hc).1] at h
      obtain rfl := Option.some.inj h
      exact .inr ⟨c, hc, rfl, .inr hn⟩
    · rw [List.getElem?_set_ne hik] at h
      exact .inr ⟨c', h, rfl, .inl rfl⟩

/-- The state after a move: as it was, or changed from outside, or by the next section of a call. -/
theorem move_state (w : World σ ρ α) (m : Move ρ ε) :
    (S.move w m).state = w.state ∨ (∃ event, (S.move w m).state = S.outside event w.state) ∨
    ∃ (k : Nat) (c : Call σ ρ α) (rest : Routine σ α),
      w.calls[k]? = some c ∧ c.rest.next? w.state = some (rest, (S.move w m).state) := by
  obtain ⟨request, h⟩ | ⟨event, h⟩ | h | ⟨i, c, rest, s, hc, hn, h⟩ := move_cases (S := S) w m <;> rw [h]
  · exact .inl rfl
  · exact .inr (.inl ⟨event, rfl⟩)
  · exact .inl rfl
  · exact .inr (.inr ⟨i, c, rest, hc, hn⟩)

/-- What is left of every call goes on doing what its routine does. -/
theorem move_does {G : ρ → σ → σ → Prop} (does : ∀ request, (S.routine request).Does (G request)) {w : World σ ρ α}
    (h : ∀ c ∈ w.calls, c.rest.Does (G c.request)) (m : Move ρ ε) :
    ∀ c ∈ (S.move w m).calls, c.rest.Does (G c.request) := by
  intro c' hc'
  obtain ⟨k, hk⟩ := List.getElem?_of_mem hc'
  obtain ⟨-, hrest⟩ | ⟨c, hc, hrequest, hrest | hn⟩ := move_call hk
  · exact hrest ▸ does c'.request
  · exact hrest ▸ hrequest ▸ h c (List.mem_of_getElem? hc)
  · exact hrequest ▸ (Routine.does_next (h c (List.mem_of_getElem? hc)) hn).2

/-! ### What a run keeps -/

/-- A property of state and past that every section and every event keeps. -/
theorem run_keeps {I : σ → List (Taken σ ρ) → Prop} {G : ρ → σ → σ → Prop} {s : σ} (start : I s [])
    (does : ∀ request, (S.routine request).Does (G request))
    (taken : ∀ t past, I t.before past → G t.request t.before t.after → I t.after (past ++ [t]))
    (outside : ∀ s past event, I s past → I (S.outside event s) past) (moves : List (Move ρ ε)) :
    I (S.run s moves).state (S.run s moves).past := by
  suffices h : I (S.run s moves).state (S.run s moves).past ∧
      ∀ c ∈ (S.run s moves).calls, c.rest.Does (G c.request) from h.1
  refine run_induction (P := fun w => I w.state w.past ∧ ∀ c ∈ w.calls, c.rest.Does (G c.request))
    ⟨start, by simp⟩ ?_ moves
  intro w m ⟨hI, hcalls⟩
  refine ⟨?_, move_does does hcalls m⟩
  obtain ⟨request, h⟩ | ⟨event, h⟩ | h | ⟨i, c, rest, s', hc, hn, h⟩ := move_cases (S := S) w m <;> rw [h]
  · exact hI
  · exact outside _ _ event hI
  · exact hI
  · have hG := (Routine.does_next (hcalls c (List.mem_of_getElem? hc)) hn).1
    exact taken ⟨i, c.request, w.state, s'⟩ _ hI hG

/-- Under a preorder that every section and every event climbs, the past is in order. -/
theorem run_climbs {R : σ → σ → Prop} (trans : ∀ {a b c}, R a b → R b c → R a c)
    (does : ∀ request, (S.routine request).Does R) (outside : ∀ s event, R s (S.outside event s))
    (s : σ) (moves : List (Move ρ ε)) :
    (S.run s moves).past.Pairwise (fun a b => R a.before b.before) ∧
      ∀ t ∈ (S.run s moves).past, R t.before (S.run s moves).state := by
  refine run_keeps (I := fun s past => past.Pairwise (fun a b => R a.before b.before) ∧ ∀ t ∈ past, R t.before s)
    (G := fun _ => R) ⟨.nil, by simp⟩ does ?_ ?_ moves
  · intro t past ⟨hp, hs⟩ ht
    refine ⟨List.pairwise_append.mpr ⟨hp, List.pairwise_singleton .., ?_⟩, fun u hu => ?_⟩
    · intro a ha b hb
      rw [List.mem_singleton.mp hb]
      exact hs a ha
    · rcases List.mem_append.mp hu with hu | hu
      · exact trans (hs u hu) ht
      · rw [List.mem_singleton.mp hu]
        exact ht
  · intro s past event ⟨hp, hs⟩
    exact ⟨hp, fun t ht => trans (hs t ht) (outside s event)⟩

/-! ### What a call goes by -/

/-- Every call follows its routine, and goes by nothing but the states its own
sections found. -/
structure Faithful (S : System σ ρ α ε) (w : World σ ρ α) : Prop where
  rest : ∀ i c, w.calls[i]? = some c → (S.routine c.request).replay? (seen w.past i) = some c.rest
  request : ∀ t ∈ w.past, ∃ c, w.calls[t.call]? = some c ∧ c.request = t.request
  taken : ∀ xs t ys, w.past = xs ++ t :: ys → (S.routine t.request).Takes (seen xs t.call) t.before t.after

theorem seen_eq_nil {w : World σ ρ α} (h : Faithful S w) {i : Nat} (hi : w.calls.length ≤ i) :
    seen w.past i = [] := by
  have hne : ∀ t ∈ w.past, t.call ≠ i := by
    intro t ht heq
    obtain ⟨c, hc, -⟩ := h.request t ht
    have := (List.getElem?_eq_some_iff.mp hc).1
    omega
  simpa [seen, List.filter_eq_nil_iff] using hne

theorem faithful_start {w : World σ ρ α} (h : Faithful S w) (request : ρ) :
    Faithful S { w with calls := w.calls ++ [⟨request, S.routine request⟩] } := by
  refine ⟨fun i c hc => ?_, fun t ht => ?_, h.taken⟩
  · by_cases hi : i < w.calls.length
    · rw [List.getElem?_append_left hi] at hc
      exact h.rest i c hc
    · rw [List.getElem?_append_right (by omega)] at hc
      obtain rfl := List.mem_singleton.mp (List.mem_of_getElem? hc)
      rw [seen_eq_nil h (by omega)]
      rfl
  · obtain ⟨c, hc, hr⟩ := h.request t ht
    exact ⟨c, by rw [List.getElem?_append_left (List.getElem?_eq_some_iff.mp hc).1, hc], hr⟩

theorem faithful_taken {w : World σ ρ α} (h : Faithful S w) {i : Nat} {c : Call σ ρ α}
    {rest : Routine σ α} {s : σ} (hc : w.calls[i]? = some c) (hn : c.rest.next? w.state = some (rest, s)) :
    Faithful S { state := s, calls := w.calls.set i { c with rest }
                 past := w.past ++ [⟨i, c.request, w.state, s⟩] } := by
  have hi := (List.getElem?_eq_some_iff.mp hc).1
  refine ⟨fun j d hd => ?_, fun t ht => ?_, fun xs t ys he => ?_⟩
  · by_cases hij : i = j
    · subst hij
      rw [List.getElem?_set_self hi] at hd
      obtain rfl := Option.some.inj hd
      rw [seen_snoc, if_pos rfl]
      exact Routine.replay?_snoc (h.rest i c hc) hn
    · rw [List.getElem?_set_ne hij] at hd
      rw [seen_snoc, if_neg hij]
      exact h.rest j d hd
  · rcases List.mem_append.mp ht with ht | ht
    · obtain ⟨d, hd, hr⟩ := h.request t ht
      by_cases hij : i = t.call
      · subst hij
        obtain rfl := Option.some.inj (hc.symm.trans hd)
        exact ⟨{ c with rest }, List.getElem?_set_self hi, hr⟩
      · exact ⟨d, by rw [List.getElem?_set_ne hij, hd], hr⟩
    · obtain rfl := List.mem_singleton.mp ht
      exact ⟨{ c with rest }, List.getElem?_set_self hi, rfl⟩
  · -- The section is one of the past, or the one just taken.
    rcases List.append_eq_append_iff.mp he with ⟨zs, rfl, hz⟩ | ⟨zs, hz, ht⟩
    · cases zs with
      | nil =>
        obtain ⟨rfl, -⟩ := List.cons.inj hz
        exact ⟨c.rest, rest, by simpa using h.rest i c hc, hn⟩
      | cons z zs => simp at hz
    · cases zs with
      | nil =>
        obtain ⟨rfl, -⟩ := List.cons.inj ht
        rw [List.append_nil] at hz
        exact ⟨c.rest, rest, hz ▸ h.rest i c hc, hn⟩
      | cons z zs =>
        obtain ⟨rfl, -⟩ := List.cons.inj ht
        exact h.taken xs t zs hz

theorem faithful_move {w : World σ ρ α} (hw : Faithful S w) (m : Move ρ ε) : Faithful S (S.move w m) := by
  obtain ⟨request, h⟩ | ⟨event, h⟩ | h | ⟨i, c, rest, s', hc, hn, h⟩ := move_cases (S := S) w m <;> rw [h]
  · exact faithful_start hw request
  · exact ⟨hw.rest, hw.request, hw.taken⟩
  · exact hw
  · exact faithful_taken hw hc hn

theorem run_faithful (S : System σ ρ α ε) (s : σ) (moves : List (Move ρ ε)) : Faithful S (S.run s moves) := by
  refine run_induction (P := Faithful S) ⟨by simp, by simp, by simp⟩ ?_ moves
  exact fun w m hw => faithful_move hw m

/-- Sections of one call belong to one request. -/
theorem Faithful.request_eq {w : World σ ρ α} (h : Faithful S w) {t u : Taken σ ρ} (ht : t ∈ w.past) (hu : u ∈ w.past)
    (hcall : u.call = t.call) : u.request = t.request := by
  obtain ⟨c, hc, hrequest⟩ := h.request t ht
  obtain ⟨d, hd, hrequest'⟩ := h.request u hu
  rw [hcall, hc] at hd
  rw [← hrequest, ← hrequest', Option.some.inj hd]

/-- A property of state and past that every event keeps, and every section given what the
sections of its call before it found. -/
theorem run_keeps_taken {I : σ → List (Taken σ ρ) → Prop} {s : σ} (start : I s [])
    (taken : ∀ t past, I t.before past → (∀ u ∈ past, u.call = t.call → u.request = t.request) →
      (S.routine t.request).Takes (seen past t.call) t.before t.after → I t.after (past ++ [t]))
    (outside : ∀ s past event, I s past → I (S.outside event s) past) (moves : List (Move ρ ε)) :
    I (S.run s moves).state (S.run s moves).past := by
  suffices h : Faithful S (S.run s moves) ∧ I (S.run s moves).state (S.run s moves).past from h.2
  refine run_induction (P := fun w => Faithful S w ∧ I w.state w.past) ⟨⟨by simp, by simp, by simp⟩, start⟩ ?_ moves
  intro w m ⟨hw, hI⟩
  refine ⟨faithful_move hw m, ?_⟩
  have hnext := faithful_move hw m
  obtain ⟨request, h⟩ | ⟨event, h⟩ | h | ⟨i, c, rest, s', hc, hn, h⟩ := move_cases (S := S) w m <;> rw [h] at hnext ⊢
  · exact hI
  · exact outside _ _ event hI
  · exact hI
  · refine taken ⟨i, c.request, w.state, s'⟩ w.past hI (fun u hu hcall => ?_) (hnext.taken w.past _ [] rfl)
    exact hnext.request_eq (by simp) (List.mem_append_left _ hu) hcall

/-! ### Where a section stands -/

section Sections

variable {past : List (Taken σ ρ)} {k : Nat} {as bs : List σ} {s : σ}

/-- Every section was taken at some moment. -/
theorem exists_moment (s : σ) (moves : List (Move ρ ε)) {xs ys : List (Taken σ ρ)} {t : Taken σ ρ}
    (h : (S.run s moves).past = xs ++ t :: ys) :
    ∃ n ≤ moves.length, (S.run s (moves.take n)).past = xs ∧ (S.run s (moves.take n)).state = t.before := by
  induction moves using List.reverseRecOn generalizing ys with
  | nil => simp [run] at h
  | append_singleton moves m ih =>
    have hearlier : ∀ ys, (S.run s moves).past = xs ++ t :: ys → ∃ n ≤ (moves ++ [m]).length,
        (S.run s ((moves ++ [m]).take n)).past = xs ∧ (S.run s ((moves ++ [m]).take n)).state = t.before := by
      intro ys hpast
      obtain ⟨n, hn, hfound⟩ := ih hpast
      refine ⟨n, by simp; omega, ?_⟩
      rw [List.take_append_of_le_length hn]
      exact hfound
    have hlast : S.run s (moves ++ [m]) = S.move (S.run s moves) m := by
      rw [run, List.foldl_append]
      rfl
    rw [hlast] at h
    obtain ⟨request, hm⟩ | ⟨event, hm⟩ | hm | ⟨i, c, rest, s', hc, hn, hm⟩ :=
      move_cases (S := S) (S.run s moves) m <;> rw [hm] at h
    · exact hearlier _ h
    · exact hearlier _ h
    · exact hearlier _ h
    · -- The section is the one just taken, or an earlier one.
      cases ys using List.reverseRecOn with
      | nil =>
        obtain ⟨hxs, ht⟩ := List.append_inj' h rfl
        obtain rfl := List.singleton_inj.mp ht
        exact ⟨moves.length, by simp, by simp [hxs]⟩
      | append_singleton ys y =>
        rw [← List.cons_append, ← List.append_assoc] at h
        exact hearlier ys (List.append_inj' h rfl).1

/-- The request that a move brings, if it does. -/
def Move.request? : Move ρ ε → Option ρ
  | .start request => some request
  | .go _ | .outside _ => none

/-- The calls of a run are the requests that its moves brought. -/
theorem requests_run (s : σ) (moves : List (Move ρ ε)) :
    (S.run s moves).calls.map Call.request = moves.filterMap Move.request? := by
  induction moves using List.reverseRecOn with
  | nil => rfl
  | append_singleton moves m ih =>
    rw [run, List.foldl_append, List.filterMap_append, ← ih]
    show (S.move (S.run s moves) m).calls.map Call.request = _
    cases m with
    | start request => simp [move, Move.request?]
    | outside event => simp [move, Move.request?]
    | go i =>
      have hgo : [(Move.go i : Move ρ ε)].filterMap Move.request? = [] := rfl
      rw [hgo, List.append_nil, move]
      cases hc : (S.run s moves).calls[i]? with
      | none => rfl
      | some c =>
        dsimp only
        rw [proceed]
        split
        · rfl
        · obtain ⟨hi, rfl⟩ := List.getElem?_eq_some_iff.mp hc
          apply List.ext_getElem?
          intro j
          by_cases hij : i = j
          · subst hij
            simp [hi]
          · simp [List.getElem?_set_ne hij]

/-- The section of a call that found a certain one of its states. -/
theorem exists_taken (h : seen past k = as ++ s :: bs) :
    ∃ xs t ys, past = xs ++ t :: ys ∧ t.call = k ∧ t.before = s ∧ seen xs k = as ∧ seen ys k = bs := by
  obtain ⟨front, back, hfilter, rfl, hback⟩ := List.map_eq_append_iff.mp h
  obtain ⟨t, back, rfl, rfl, rfl⟩ := List.map_eq_cons_iff.mp hback
  obtain ⟨xs, rest, rfl, rfl, hrest⟩ := List.filter_eq_append_iff.mp hfilter
  obtain ⟨skipped, ys, rfl, hskipped, ht, rfl⟩ := List.filter_eq_cons_iff.mp hrest
  have hnone : seen skipped k = [] := by simpa [seen, List.filter_eq_nil_iff] using hskipped
  refine ⟨xs ++ skipped, t, ys, by simp, by simpa using ht, rfl, ?_, rfl⟩
  rw [seen, List.filter_append, List.map_append]
  exact (congrArg (seen xs k ++ ·) hnone).trans (List.append_nil _)

/-- The first section of a call, and a later one. -/
theorem exists_two_taken {first : σ} (h : seen past k = first :: (as ++ s :: bs)) :
    ∃ xs t₀ ws t ys, past = xs ++ t₀ :: (ws ++ t :: ys) ∧ t₀.call = k ∧ t₀.before = first ∧ t.call = k ∧ t.before = s ∧
      seen xs k = [] ∧ seen ys k = bs := by
  obtain ⟨xs, t₀, later, rfl, hcall₀, hfirst, hxs, hlater⟩ := exists_taken (List.nil_append (first :: _) ▸ h)
  obtain ⟨ws, t, ys, rfl, hcall, hs, -, hys⟩ := exists_taken hlater
  exact ⟨xs, t₀, ws, t, ys, rfl, hcall₀, hfirst, hcall, hs, hxs, hys⟩

end Sections

end System

end CodeAtlas
