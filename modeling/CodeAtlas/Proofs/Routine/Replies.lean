import CodeAtlas.Proofs.Routine.Ensures

/-! The answers of a run, in the order in which they are given.

A call is answered in its last section. What a routine does in that section may depend on
the answer, and be something else than what it does before (`Concludes`). So a run can be
told as the list of its replies, each with the states before and after the section that
gave it (`replies`). A property of the state and the replies so far that the last sections
keep, the sections before them and the events from outside, is kept by the run
(`run_replies`); and of the sections of each call it is known which was the last
(`run_concludes`). -/
namespace CodeAtlas.Routine

variable {σ α β : Type} {G : σ → σ → Prop} {E : α → σ → σ → Prop} {F : β → σ → σ → Prop}

/-- What a section does that leaves this of its routine: with an answer it does as `E` has it for
that answer, and without one as `G` has it. -/
def Lands (G : σ → σ → Prop) (E : α → σ → σ → Prop) (r : Routine σ α) (s s' : σ) : Prop :=
  match r.answer? with
  | some a => E a s s'
  | none => G s s'

/-- Every section does as `G` has it, but for the last one, which does as `E` has it for the answer. -/
def Concludes (G : σ → σ → Prop) (E : α → σ → σ → Prop) : Routine σ α → Prop
  | done _ => True
  | step act next => (∀ s, (next (act s).1).Lands G E s (act s).2) ∧ ∀ b, (next b).Concludes G E
  | pause rest => (∀ s, rest.Lands G E s s) ∧ rest.Concludes G E

/-- What follows an answer may begin with it, or be all there was. -/
theorem Lands.bind {r : Routine σ α} {f : α → Routine σ β} {s s' : σ}
    (hr : r.Lands G (fun a s s' => (f a).Lands G F s s') s s') : (r >>= f).Lands G F s s' := by
  cases r with
  | done a => exact hr
  | step act next => exact hr
  | pause rest => exact hr

theorem Concludes.bind {r : Routine σ α} {f : α → Routine σ β}
    (hr : r.Concludes G fun a s s' => (f a).Lands G F s s') (hf : ∀ a, (f a).Concludes G F) :
    (r >>= f).Concludes G F := by
  induction r with
  | done a => exact hf a
  | step act next ih => exact ⟨fun s => (hr.1 s).bind, fun b => ih b (hr.2 b)⟩
  | pause rest ih => exact ⟨fun s => (hr.1 s).bind, ih hr.2⟩

/-- What is made of an answer is answered in the same section. -/
theorem Concludes.map {r : Routine σ α} {g : α → β} (hr : r.Concludes G fun a => F (g a)) :
    (do return g (← r) : Routine σ β).Concludes G F :=
  Concludes.bind hr fun _ => trivial

theorem Lands.mono {E' : α → σ → σ → Prop} {r : Routine σ α} {s s' : σ} (hr : r.Lands G E s s')
    (h : ∀ a, E a s s' → E' a s s') : r.Lands G E' s s' := by
  cases r with
  | done a => exact h a hr
  | step act next => exact hr
  | pause rest => exact hr

theorem Concludes.mono {E' : α → σ → σ → Prop} {r : Routine σ α} (hr : r.Concludes G E)
    (h : ∀ a s s', E a s s' → E' a s s') : r.Concludes G E' := by
  induction r with
  | done a => trivial
  | step act next ih => exact ⟨fun s => (hr.1 s).mono fun a => h a s _, fun b => ih b (hr.2 b)⟩
  | pause rest ih => exact ⟨fun s => (hr.1 s).mono fun a => h a s s, ih hr.2⟩

theorem concludes_atomic {act : StateM σ α} (h : ∀ s, E (act s).1 s (act s).2) : (atomic act).Concludes G E :=
  ⟨h, fun _ => trivial⟩

/-- A routine all of whose sections do the same. -/
theorem Does.concludes {r : Routine σ α} (hr : r.Does G) : r.Concludes G fun _ => G := by
  have hlands : ∀ (r : Routine σ α) s s', G s s' → r.Lands G (fun _ => G) s s' := by
    intro r s s' h
    cases r <;> exact h
  induction r with
  | done a => trivial
  | step act next ih => exact ⟨fun s => hlands _ _ _ (hr.1 s), fun b => ih b (hr.2 b)⟩
  | pause rest ih => exact ⟨fun s => hlands _ _ _ (hr.1 s), ih hr.2⟩

theorem Concludes.next {r r' : Routine σ α} {s s' : σ} (hr : r.Concludes G E) (h : r.next? s = some (r', s')) :
    r'.Lands G E s s' ∧ r'.Concludes G E := by
  cases r with
  | done a => cases h
  | step act next =>
    cases h
    exact ⟨hr.1 s, hr.2 _⟩
  | pause rest =>
    cases h
    exact ⟨hr.1 s, hr.2⟩

/-- What has a next section has no answer yet. -/
theorem answer?_of_next? {r r' : Routine σ α} {s s' : σ} (h : r.next? s = some (r', s')) : r.answer? = none := by
  cases r with
  | done a => cases h
  | step act next => rfl
  | pause rest => rfl

end CodeAtlas.Routine

namespace CodeAtlas.System

variable {σ ρ α ε : Type} {S : System σ ρ α ε}

/-- A call that was answered, and its last section. -/
structure Reply (σ ρ α : Type) where
  call : Nat
  request : ρ
  answer : α
  before : σ
  after : σ

/-- The reply that a move brings, if it takes the last section of a call. -/
def reply? (w : World σ ρ α) : Move ρ ε → Option (Reply σ ρ α)
  | .go i =>
    (w.calls[i]?).bind fun c => (c.rest.next? w.state).bind fun p =>
      p.1.answer?.map fun answer => ⟨i, c.request, answer, w.state, p.2⟩
  | .start _ | .outside _ => none

/-- The replies that some moves bring, one after the other. -/
def repliesFrom (S : System σ ρ α ε) (w : World σ ρ α) : List (Move ρ ε) → List (Reply σ ρ α)
  | [] => []
  | m :: moves => (reply? w m).toList ++ S.repliesFrom (S.move w m) moves

/-- All replies of a run, oldest first. -/
def replies (S : System σ ρ α ε) (s : σ) (moves : List (Move ρ ε)) : List (Reply σ ρ α) :=
  S.repliesFrom { state := s } moves

theorem repliesFrom_snoc (w : World σ ρ α) (moves : List (Move ρ ε)) (m : Move ρ ε) :
    S.repliesFrom w (moves ++ [m]) = S.repliesFrom w moves ++ (reply? (moves.foldl S.move w) m).toList := by
  induction moves generalizing w with
  | nil => exact List.append_nil _
  | cons m' moves ih => rw [List.cons_append, repliesFrom, ih, repliesFrom, List.append_assoc, List.foldl_cons]

/-- A move brings no reply, and leaves the state or changes it from outside; or it takes a section. -/
theorem reply?_cases (w : World σ ρ α) (m : Move ρ ε) :
    (reply? w m = none ∧ ((S.move w m).state = w.state ∨ ∃ event, (S.move w m).state = S.outside event w.state)) ∨
    ∃ (i : Nat) (c : Call σ ρ α) (rest : Routine σ α), w.calls[i]? = some c ∧
      c.rest.next? w.state = some (rest, (S.move w m).state) ∧
      reply? w m = rest.answer?.map fun answer => ⟨i, c.request, answer, w.state, (S.move w m).state⟩ := by
  cases m with
  | start request => exact .inl ⟨rfl, .inl rfl⟩
  | outside event => exact .inl ⟨rfl, .inr ⟨event, rfl⟩⟩
  | go i =>
    cases hc : w.calls[i]? with
    | none => exact .inl ⟨by simp [reply?, hc], .inl (by simp [move, hc])⟩
    | some c =>
      cases hn : c.rest.next? w.state with
      | none => exact .inl ⟨by simp [reply?, hc, hn], .inl (by simp [move, hc, proceed, hn])⟩
      | some p =>
        have hstate : (S.move w (.go i)).state = p.2 := by simp [move, hc, proceed, hn]
        rw [hstate]
        exact .inr ⟨i, c, p.1, hc, hn, by simp [reply?, hc, hn]⟩

section Concluding

variable {G : ρ → σ → σ → Prop} {E : ρ → α → σ → σ → Prop}

theorem move_concludes (concludes : ∀ request, (S.routine request).Concludes (G request) (E request)) {w : World σ ρ α}
    (h : ∀ c ∈ w.calls, c.rest.Concludes (G c.request) (E c.request)) (m : Move ρ ε) :
    ∀ c ∈ (S.move w m).calls, c.rest.Concludes (G c.request) (E c.request) := by
  intro c' hc'
  obtain ⟨k, hk⟩ := List.getElem?_of_mem hc'
  obtain ⟨-, hrest⟩ | ⟨c, hc, hrequest, hrest | hn⟩ := move_call hk
  · exact hrest ▸ concludes c'.request
  · exact hrest ▸ hrequest ▸ h c (List.mem_of_getElem? hc)
  · exact hrequest ▸ ((h c (List.mem_of_getElem? hc)).next hn).2

/-- A property of the state and the replies so far: sections without an answer keep it, and
events; and it goes on when a section gives a reply. -/
theorem run_replies {I : σ → List (Reply σ ρ α) → Prop} {s : σ} (start : I s [])
    (concludes : ∀ request, (S.routine request).Concludes (G request) (E request))
    (silent : ∀ request s s' replies, I s replies → G request s s' → I s' replies)
    (reply : ∀ r replies, I r.before replies → E r.request r.answer r.before r.after → I r.after (replies ++ [r]))
    (outside : ∀ s replies event, I s replies → I (S.outside event s) replies) (moves : List (Move ρ ε)) :
    I (S.run s moves).state (S.replies s moves) := by
  suffices h : I (S.run s moves).state (S.replies s moves) ∧
      ∀ c ∈ (S.run s moves).calls, c.rest.Concludes (G c.request) (E c.request) from h.1
  induction moves using List.reverseRecOn with
  | nil => exact ⟨start, by simp [run]⟩
  | append_singleton moves m ih =>
    obtain ⟨hI, hcalls⟩ := ih
    have hrun : S.run s (moves ++ [m]) = S.move (S.run s moves) m := List.foldl_append
    have hreplies : S.replies s (moves ++ [m]) = S.replies s moves ++ (reply? (S.run s moves) m).toList :=
      repliesFrom_snoc ..
    rw [hrun, hreplies]
    refine ⟨?_, move_concludes concludes hcalls m⟩
    obtain ⟨hnone, hstate | ⟨event, hstate⟩⟩ | ⟨i, c, rest, hc, hn, hreply⟩ := reply?_cases (S := S) (S.run s moves) m
    · rw [hnone, hstate]
      exact (List.append_nil _).symm ▸ hI
    · rw [hnone, hstate]
      exact (List.append_nil _).symm ▸ outside _ _ event hI
    · have hlands := ((hcalls c (List.mem_of_getElem? hc)).next hn).1
      rw [hreply]
      unfold Routine.Lands at hlands
      split at hlands
      · rename_i answer hanswer
        rw [hanswer]
        exact reply ⟨i, c.request, answer, (S.run s moves).state, _⟩ _ hI hlands
      · rename_i hanswer
        rw [hanswer]
        exact (List.append_nil _).symm ▸ silent c.request _ _ _ hI hlands

/-- The sections of one call. -/
def sections (past : List (Taken σ ρ)) (i : Nat) : List (Taken σ ρ) := past.filter (·.call == i)

theorem sections_snoc (past : List (Taken σ ρ)) (t : Taken σ ρ) (i : Nat) :
    sections (past ++ [t]) i = if t.call = i then sections past i ++ [t] else sections past i := by
  by_cases h : t.call = i <;> simp [sections, h]

/-- What is known of the sections of a call: with an answer the last one did as `E` has it for
that answer, and all others did as `G` has it. -/
def Concluded (G : σ → σ → Prop) (E : α → σ → σ → Prop) (taken : List (Taken σ ρ)) : Option α → Prop
  | some answer => ∃ earlier last, taken = earlier ++ [last] ∧ (∀ t ∈ earlier, G t.before t.after) ∧
      E answer last.before last.after
  | none => ∀ t ∈ taken, G t.before t.after

theorem run_concludes (concludes : ∀ request, (S.routine request).Concludes (G request) (E request))
    (begins : ∀ request, (S.routine request).answer? = none) (s : σ) (moves : List (Move ρ ε)) :
    ∀ i c, (S.run s moves).calls[i]? = some c →
      Concluded (G c.request) (E c.request) (sections (S.run s moves).past i) c.rest.answer? := by
  let P (w : World σ ρ α) : Prop := ∀ i c, w.calls[i]? = some c →
    Concluded (G c.request) (E c.request) (sections w.past i) c.rest.answer?
  suffices h : Faithful S (S.run s moves) ∧
      (∀ c ∈ (S.run s moves).calls, c.rest.Concludes (G c.request) (E c.request)) ∧ P (S.run s moves) from h.2.2
  refine run_induction (P := fun w => Faithful S w ∧
    (∀ c ∈ w.calls, c.rest.Concludes (G c.request) (E c.request)) ∧ P w)
    ⟨⟨by simp, by simp, by simp⟩, by simp, fun i c hc => by simp at hc⟩ ?_ moves
  intro w m ⟨hw, hcalls, hP⟩
  refine ⟨faithful_move hw m, move_concludes concludes hcalls m, ?_⟩
  obtain ⟨request, h⟩ | ⟨event, h⟩ | h | ⟨i, c, rest, s', hc, hn, h⟩ := move_cases (S := S) w m <;> rw [h]
  · intro j d hd
    by_cases hj : j < w.calls.length
    · rw [List.getElem?_append_left hj] at hd
      exact hP j d hd
    · rw [List.getElem?_append_right (by omega)] at hd
      obtain rfl := List.mem_singleton.mp (List.mem_of_getElem? hd)
      have hnone : sections w.past j = [] := List.map_eq_nil_iff.mp (seen_eq_nil hw (by omega))
      show Concluded _ _ (sections w.past j) (S.routine request).answer?
      rw [hnone, begins]
      exact fun t ht => (List.not_mem_nil ht).elim
  · exact hP
  · exact hP
  · intro j d hd
    have hi := (List.getElem?_eq_some_iff.mp hc).1
    by_cases hij : i = j
    · subst hij
      rw [List.getElem?_set_self hi] at hd
      obtain rfl := Option.some.inj hd
      have hearlier := hP i c hc
      rw [Routine.answer?_of_next? hn] at hearlier
      have hlands := ((hcalls c (List.mem_of_getElem? hc)).next hn).1
      show Concluded (G c.request) (E c.request) (sections (w.past ++ [_]) i) rest.answer?
      rw [sections_snoc, if_pos rfl]
      unfold Routine.Lands at hlands
      split at hlands
      · rename_i answer hanswer
        rw [hanswer]
        exact ⟨_, _, rfl, hearlier, hlands⟩
      · rename_i hanswer
        rw [hanswer]
        intro t ht
        rcases List.mem_append.mp ht with ht | ht
        · exact hearlier t ht
        · rw [List.mem_singleton.mp ht]
          exact hlands
    · rw [List.getElem?_set_ne hij] at hd
      show Concluded _ _ (sections (w.past ++ [_]) j) d.rest.answer?
      rw [sections_snoc, if_neg hij]
      exact hP j d hd

end Concluding

end CodeAtlas.System
