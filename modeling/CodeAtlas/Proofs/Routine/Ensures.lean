import CodeAtlas.Proofs.Routine.Run
import Mathlib.Data.Nat.Init

/-! What a routine is sure of while others run.

Between two sections of a routine others may change the state, and what was read before
may be out of date. What a routine can go by is an invariant that all sections keep, and
what is known of the circumstances at every moment. It is shown for each routine on its
own that it keeps the invariant and answers as promised (`Ensures`); then this holds of
all routines side by side (`run_ensures`). -/
namespace CodeAtlas.Routine

variable {σ τ α β : Type} {J C : σ → Prop} {Q : α → Prop} {R : β → Prop} {G : σ → σ → Prop}

/-- As long as every section finds the invariant `J` and the circumstances `C`, it leaves
the invariant, and the answer is as `Q` has it. -/
def Ensures (J C : σ → Prop) (Q : α → Prop) : Routine σ α → Prop
  | done a => Q a
  | step act next => ∀ s, J s → C s → J (act s).2 ∧ (next (act s).1).Ensures J C Q
  | pause rest => rest.Ensures J C Q

theorem ensures_bind {r : Routine σ α} {f : α → Routine σ β} (hr : r.Ensures J C Q)
    (hf : ∀ a, Q a → (f a).Ensures J C R) : (r >>= f).Ensures J C R := by
  induction r with
  | done a => exact hf a hr
  | step act next ih => exact fun s hJ hC => ⟨(hr s hJ hC).1, ih _ (hr s hJ hC).2⟩
  | pause rest ih => exact ih hr

theorem ensures_atomic {act : StateM σ α} (h : ∀ s, J s → C s → J (act s).2 ∧ Q (act s).1) :
    (atomic act).Ensures J C Q := h

theorem ensures_look {f : σ → α} (h : ∀ s, J s → C s → Q (f s)) : (look f).Ensures J C Q :=
  ensures_atomic fun s hJ hC => ⟨hJ, h s hJ hC⟩

theorem Ensures.mono {Q' : α → Prop} {r : Routine σ α} (hr : r.Ensures J C Q) (h : ∀ a, Q a → Q' a) :
    r.Ensures J C Q' := by
  induction r with
  | done a => exact h a hr
  | step act next ih => exact fun s hJ hC => ⟨(hr s hJ hC).1, ih _ (hr s hJ hC).2⟩
  | pause rest ih => exact ih hr

/-- What every section does to the state is enough to keep the invariant. -/
theorem Does.ensures {r : Routine σ α} (hr : r.Does G) (h : ∀ s s', G s s' → J s → J s') :
    r.Ensures J C fun _ => True := by
  induction r with
  | done a => trivial
  | step act next ih => exact fun s hJ _ => ⟨h _ _ (hr.1 s) hJ, ih _ (hr.2 _)⟩
  | pause rest ih => exact ih hr.2

/-- A part has an invariant and circumstances of its own. -/
theorem ensures_within {part : τ → σ} {update : σ → τ → τ} {J' C' : τ → Prop} {r : Routine σ α} (hr : r.Ensures J C Q)
    (hpart : ∀ t, J' t → C' t → J (part t) ∧ C (part t)) (hupdate : ∀ t s, J' t → J s → J' (update s t)) :
    (r.within part update).Ensures J' C' Q := by
  induction r with
  | done a => exact hr
  | step act next ih =>
    intro t hJ hC
    obtain ⟨hkept, hnext⟩ := hr (part t) (hpart t hJ hC).1 (hpart t hJ hC).2
    exact ⟨hupdate t _ hJ hkept, ih _ hnext⟩
  | pause rest ih => exact ih hr

theorem ensures_next {r r' : Routine σ α} {s s' : σ} (hr : r.Ensures J C Q) (h : r.next? s = some (r', s'))
    (hJ : J s) (hC : C s) : J s' ∧ r'.Ensures J C Q := by
  cases r with
  | done a => cases h
  | step act next =>
    cases h
    exact hr s hJ hC
  | pause rest =>
    cases h
    exact ⟨hJ, hr⟩

/-- What is ensured holds of an answer, if the sections found what they rely on. -/
theorem Ensures.answers {r : Routine σ α} (hr : r.Ensures J C Q) {xs : List σ} {a : α} (h : r.Answers xs a)
    (hJ : ∀ s ∈ xs, J s) (hC : ∀ s ∈ xs, C s) : Q a := by
  induction xs generalizing r with
  | nil =>
    cases r with
    | done b =>
      cases h
      exact hr
    | step act next => cases h
    | pause rest => cases h
  | cons s xs ih =>
    have hJ' : ∀ s ∈ xs, J s := fun s hs => hJ s (List.mem_cons_of_mem _ hs)
    have hC' : ∀ s ∈ xs, C s := fun s hs => hC s (List.mem_cons_of_mem _ hs)
    cases r with
    | done b => cases h
    | step act next => exact ih (hr s (hJ s List.mem_cons_self) (hC s List.mem_cons_self)).2 h hJ' hC'
    | pause rest => exact @ih rest hr h hJ' hC'

/-! ### What comes before an answer -/

/-- The answer of a routine that is done. -/
def answer? : Routine σ α → Option α
  | done a => some a
  | step .. | pause _ => none

theorem eq_done_of_answer? {r : Routine σ α} {a : α} (h : r.answer? = some a) : r = done a := by
  cases r with
  | done b => exact congrArg done (Option.some.inj h)
  | step act next => cases h
  | pause rest => cases h

/-- There is no answer of a kind before the routine has come to a certain point. -/
inductive Passes (P : Routine σ α → Prop) (Q : α → Prop) : Routine σ α → Prop where
  | here {r : Routine σ α} (h : P r) : Passes P Q r
  | done {a : α} (h : ¬Q a) : Passes P Q (.done a)
  | step {β : Type} {act : StateM σ β} {next : β → Routine σ α} (h : ∀ b, Passes P Q (next b)) :
    Passes P Q (.step act next)
  | pause {rest : Routine σ α} (h : Passes P Q rest) : Passes P Q (.pause rest)

theorem bind_assoc {γ : Type} (r : Routine σ α) (f : α → Routine σ β) (g : β → Routine σ γ) :
    (r >>= f) >>= g = r >>= fun a => f a >>= g := by
  induction r with
  | done a => rfl
  | step act next ih => exact congrArg (step act) (funext ih)
  | pause rest ih => exact congrArg pause ih

theorem bind_pure (r : Routine σ α) : r >>= pure = r := by
  induction r with
  | done a => rfl
  | step act next ih => exact congrArg (step act) (funext ih)
  | pause rest ih => exact congrArg pause ih

variable {P : Routine σ α → Prop} {P' : Routine σ β → Prop}

theorem passes_bind {r : Routine σ α} {f : α → Routine σ β} (h : ∀ a, (f a).Passes P' R) : (r >>= f).Passes P' R := by
  induction r with
  | done a => exact h a
  | step act next ih => exact .step ih
  | pause rest ih => exact .pause ih

/-- What is made of an answer comes after it. -/
theorem Passes.bind {r : Routine σ α} {f : α → Routine σ β} (hr : r.Passes P Q) (hpoint : ∀ r, P r → P' (r >>= f))
    (hrest : ∀ a, ¬Q a → (f a).Passes P' R) : (r >>= f).Passes P' R := by
  induction hr with
  | here h => exact .here (hpoint _ h)
  | done h => exact hrest _ h
  | step _ ih => exact .step ih
  | pause _ ih => exact .pause ih

theorem Passes.next {r r' : Routine σ α} {s s' : σ} (hr : r.Passes P Q) (h : r.next? s = some (r', s')) :
    P r ∨ r'.Passes P Q := by
  cases hr with
  | here h => exact .inl h
  | done => cases h
  | step hnext =>
    cases h
    exact .inr (hnext _)
  | pause hrest =>
    cases h
    exact .inr hrest

end CodeAtlas.Routine

namespace CodeAtlas.System

variable {σ ρ α ε : Type} {S : System σ ρ α ε}

/-- One more move was made, if only one that does nothing. -/
theorem run_take_succ (S : System σ ρ α ε) (s : σ) (moves : List (Move ρ ε)) (n : Nat) :
    ∃ m, S.run s (moves.take (n + 1)) = S.move (S.run s (moves.take n)) m := by
  rw [List.take_add_one]
  cases moves[n]? with
  | none =>
    refine ⟨.go (S.run s (moves.take n)).calls.length, ?_⟩
    have hcall : (S.run s (moves.take n)).calls[(S.run s (moves.take n)).calls.length]? = none :=
      List.getElem?_eq_none (Nat.le_refl _)
    rw [move, hcall]
    simp
  | some m =>
    refine ⟨m, ?_⟩
    rw [run, List.foldl_append]
    rfl

/-- What holds at some moment and is kept by every move from then on holds at every later moment. -/
theorem run_from {P : Nat → World σ ρ α → Prop} {s : σ} {moves : List (Move ρ ε)} {start : Nat}
    (begins : P start (S.run s (moves.take start)))
    (keep : ∀ n, start ≤ n → P n (S.run s (moves.take n)) → ∀ m, P (n + 1) (S.move (S.run s (moves.take n)) m)) :
    ∀ n, start ≤ n → P n (S.run s (moves.take n)) := by
  intro n hn
  induction n, hn using Nat.le_induction with
  | base => exact begins
  | succ n hn ih =>
    obtain ⟨m, hm⟩ := run_take_succ S s moves n
    exact hm ▸ keep n hn ih m

theorem rest_does {G : ρ → σ → σ → Prop} (does : ∀ request, (S.routine request).Does (G request)) (s : σ)
    (moves : List (Move ρ ε)) : ∀ c ∈ (S.run s moves).calls, c.rest.Does (G c.request) :=
  run_induction (P := fun w => ∀ c ∈ w.calls, c.rest.Does (G c.request)) (by simp) (fun _ m hw => move_does does hw m) moves

/-- A call that is answered has come to a certain point before. -/
theorem run_passes {P : Routine σ α → Prop} {Q : ρ → α → Prop}
    (passes : ∀ request, (S.routine request).Passes P (Q request)) (s : σ) (moves : List (Move ρ ε)) (n k : Nat)
    {c : Call σ ρ α} (hc : (S.run s (moves.take n)).calls[k]? = some c) :
    c.rest.Passes P (Q c.request) ∨
    ∃ m ≤ n, ∃ c', (S.run s (moves.take m)).calls[k]? = some c' ∧ c'.request = c.request ∧ P c'.rest := by
  let Passed (n : Nat) (w : World σ ρ α) : Prop := ∀ c, w.calls[k]? = some c → c.rest.Passes P (Q c.request) ∨
    ∃ m ≤ n, ∃ c', (S.run s (moves.take m)).calls[k]? = some c' ∧ c'.request = c.request ∧ P c'.rest
  have hstart : Passed 0 (S.run s (moves.take 0)) := fun c hc => by cases hc
  refine run_from (P := Passed) hstart (fun n _ ih m c' hc' => ?_) n (Nat.zero_le n) c hc
  obtain ⟨-, hrest⟩ | ⟨c, hc, hrequest, hsection⟩ := move_call hc'
  · exact .inl (hrest ▸ passes c'.request)
  · rw [hrequest]
    obtain hpasses | ⟨m, hm, hpassed⟩ := ih c hc
    · obtain hrest | hn := hsection
      · exact .inl (hrest ▸ hpasses)
      · refine (hpasses.next hn).symm.imp_right fun hpoint => ⟨n, Nat.le_succ n, c, hc, rfl, hpoint⟩
    · exact .inr ⟨m, Nat.le_succ_of_le hm, hpassed⟩

/-- If the invariant holds at some moment, and at every moment from then on the
circumstances do as long as it holds, then it goes on holding, and all calls that are
begun from then on are answered as promised. -/
theorem run_ensures {J C : σ → Prop} {Q : ρ → α → Prop} {s : σ} {moves : List (Move ρ ε)} {start : Nat}
    (begins : J (S.run s (moves.take start)).state)
    (under : ∀ c ∈ (S.run s (moves.take start)).calls, c.rest.Ensures J C fun _ => True)
    (ensures : ∀ request, (S.routine request).Ensures J C (Q request))
    (outside : ∀ s event, J s → J (S.outside event s))
    (circumstances : ∀ n, start ≤ n → J (S.run s (moves.take n)).state → C (S.run s (moves.take n)).state) :
    J (S.run s moves).state ∧ ∀ i c, (S.run s (moves.take start)).calls.length ≤ i →
      (S.run s moves).calls[i]? = some c → c.rest.Ensures J C (Q c.request) := by
  let first := (S.run s (moves.take start)).calls.length
  let Holds (w : World σ ρ α) : Prop := J w.state ∧ ∀ (i : Nat) (c : Call σ ρ α), w.calls[i]? = some c →
    c.rest.Ensures J C fun a => first ≤ i → Q c.request a
  have hstart : Holds (S.run s (moves.take start)) := by
    refine ⟨begins, fun i c hc => (under c (List.mem_of_getElem? hc)).mono fun a _ hi => ?_⟩
    exact absurd hi (Nat.not_le_of_lt (List.getElem?_eq_some_iff.mp hc).1)
  suffices h : ∀ n, start ≤ n → Holds (S.run s (moves.take n)) by
    obtain ⟨hJ, hcalls⟩ := h (max start moves.length) (Nat.le_max_left ..)
    rw [List.take_of_length_le (Nat.le_max_right ..)] at hJ hcalls
    exact ⟨hJ, fun i c hi hc => (hcalls i c hc).mono fun a ha => ha hi⟩
  refine run_from (P := fun _ w => Holds w) hstart fun n hn ⟨hJ, hcalls⟩ m => ?_
  have hC := circumstances n hn hJ
  refine ⟨?_, fun i c' hc' => ?_⟩
  · obtain h | ⟨event, h⟩ | ⟨i, c, rest, hc, hnext⟩ := move_state (S := S) (S.run s (moves.take n)) m
    · exact h ▸ hJ
    · exact h ▸ outside _ event hJ
    · exact (Routine.ensures_next (hcalls i c hc) hnext hJ hC).1
  · obtain ⟨-, hrest⟩ | ⟨c, hc, hrequest, hrest | hnext⟩ := move_call hc'
    · exact hrest ▸ (ensures c'.request).mono fun a ha _ => ha
    · exact hrest ▸ hrequest ▸ hcalls i c hc
    · exact hrequest ▸ (Routine.ensures_next (hcalls i c hc) hnext hJ hC).2

end CodeAtlas.System
