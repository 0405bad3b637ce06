import CodeAtlas.Proofs.Routine.Interleaving

/-! Routines that run without interruption.

A routine on a part of a larger state (`within`) runs as it does on its own, except
that the part is put back and taken out again after every section. What that does to
the part is a function of it (`tidy`), so the routine can be looked at by itself as
long as the part is tidied after every section (`runWith`). What happens to the rest
of the larger state is said section by section (`Does`). A routine to which it makes no
difference what tidying takes away runs alike either way (`Blind`). -/
namespace CodeAtlas.Routine

variable {σ τ α β : Type} {G : σ → σ → Prop}

theorem run_pure (a : α) (s : σ) : (pure a : Routine σ α).run s = (a, s) := rfl

theorem run_bind (r : Routine σ α) (f : α → Routine σ β) (s : σ) :
    (r >>= f).run s = (f (r.run s).1).run (r.run s).2 := by
  induction r generalizing s with
  | done a => rfl
  | step act next ih => exact ih _ _
  | pause rest ih => exact ih s

theorem run_atomic (act : StateM σ α) (s : σ) : (atomic act).run s = act s := rfl

theorem run_look (f : σ → α) (s : σ) : (look f).run s = (f s, s) := rfl

/-- What is made of an answer does not matter to the state. -/
theorem run_map (r : Routine σ α) (f : α → β) (s : σ) :
    (do return f (← r) : Routine σ β).run s = (f (r.run s).1, (r.run s).2) :=
  run_bind r _ s

/-! ### On a part of a larger state -/

/-- From beginning to end, with the state tidied after every section. -/
def runWith (tidy : σ → σ) : Routine σ α → StateM σ α
  | done a, s => (a, s)
  | step act next, s => let (b, s) := act s; (next b).runWith tidy (tidy s)
  | pause rest, s => rest.runWith tidy s

theorem runWith_id (r : Routine σ α) (s : σ) : r.runWith id s = r.run s := by
  induction r generalizing s with
  | done a => rfl
  | step act next ih => exact ih _ _
  | pause rest ih => exact ih s

theorem runWith_bind (tidy : σ → σ) (r : Routine σ α) (f : α → Routine σ β) (s : σ) :
    (r >>= f).runWith tidy s = (f (r.runWith tidy s).1).runWith tidy (r.runWith tidy s).2 := by
  induction r generalizing s with
  | done a => rfl
  | step act next ih => exact ih _ _
  | pause rest ih => exact ih s

theorem runWith_atomic (tidy : σ → σ) (act : StateM σ α) (s : σ) :
    (atomic act).runWith tidy s = ((act s).1, tidy (act s).2) := rfl

/-- What every section does, the run does. -/
theorem runWith_does (tidy : σ → σ) {r : Routine σ α} (h : r.Does G) (refl : ∀ s, G s s)
    (trans : ∀ {a b c}, G a b → G b c → G a c) (htidy : ∀ s, G s (tidy s)) (s : σ) :
    G s (r.runWith tidy s).2 := by
  induction r generalizing s with
  | done a => exact refl s
  | step act next ih => exact trans (h.1 s) (trans (htidy _) (ih _ (h.2 _) _))
  | pause rest ih => exact ih h.2 s

theorem run_does {r : Routine σ α} (h : r.Does G) (refl : ∀ s, G s s) (trans : ∀ {a b c}, G a b → G b c → G a c)
    (s : σ) : G s (r.run s).2 := by
  rw [← runWith_id]
  exact runWith_does id h refl trans refl s

variable {part : τ → σ} {update : σ → τ → τ} {tidy : σ → σ} {outer : τ → τ}

/-- A part that is put back and taken out again has been tidied. -/
theorem runWith_within (h : ∀ s t, part (outer (update s t)) = tidy s) (r : Routine σ α) (t : τ) :
    ((r.within part update).runWith outer t).1 = (r.runWith tidy (part t)).1 ∧
      part ((r.within part update).runWith outer t).2 = (r.runWith tidy (part t)).2 := by
  induction r generalizing t with
  | done a => exact ⟨rfl, rfl⟩
  | step act next ih =>
    have hih := ih (act (part t)).1 (outer (update (act (part t)).2 t))
    rw [h] at hih
    exact hih
  | pause rest ih => exact ih t

theorem run_within (h : ∀ s t, part (update s t) = tidy s) (r : Routine σ α) (t : τ) :
    ((r.within part update).run t).1 = (r.runWith tidy (part t)).1 ∧
      part ((r.within part update).run t).2 = (r.runWith tidy (part t)).2 := by
  rw [← runWith_id (r.within part update)]
  exact runWith_within h r t

theorem does_within {H : τ → τ → Prop} {r : Routine σ α} (hr : r.Does G)
    (h : ∀ s t, G (part t) s → H t (update s t)) (pause : ∀ t, H t t) : (r.within part update).Does H := by
  induction r with
  | done a => trivial
  | step act next ih => exact ⟨fun t => h _ t (hr.1 _), fun b => ih b (hr.2 b)⟩
  | pause rest ih => exact ⟨pause, ih hr.2⟩

/-- On a part of a larger state a routine goes by what its sections find of the part. -/
theorem answers_within {r : Routine σ α} {ts : List τ} {a : α} (h : (r.within part update).Answers ts a) :
    r.Answers (ts.map part) a := by
  induction ts generalizing r with
  | nil =>
    cases r with
    | done b =>
      cases h
      rfl
    | step act next => cases h
    | pause rest => cases h
  | cons t ts ih =>
    cases r with
    | done b => cases h
    | step act next => exact ih h
    | pause rest => exact ih h

/-! ### What does not matter -/

/-- What tidying takes away makes no difference to any section. -/
def Blind (tidy : σ → σ) : Routine σ α → Prop
  | done _ => True
  | step act next =>
    (∀ s, (act (tidy s)).1 = (act s).1 ∧ tidy (act (tidy s)).2 = tidy (act s).2) ∧ ∀ b, (next b).Blind tidy
  | pause rest => rest.Blind tidy

theorem blind_bind {r : Routine σ α} {f : α → Routine σ β} (hr : r.Blind tidy) (hf : ∀ a, (f a).Blind tidy) :
    (r >>= f).Blind tidy := by
  induction r with
  | done a => exact hf a
  | step act next ih => exact ⟨hr.1, fun b => ih b (hr.2 b)⟩
  | pause rest ih => exact ih hr

theorem blind_atomic {act : StateM σ α}
    (h : ∀ s, (act (tidy s)).1 = (act s).1 ∧ tidy (act (tidy s)).2 = tidy (act s).2) : (atomic act).Blind tidy :=
  ⟨h, fun _ => trivial⟩

/-- A routine on a part sees nothing of the rest. -/
theorem blind_within {r : Routine σ α} (hpart : ∀ t, part (outer t) = part t)
    (hupdate : ∀ s t, outer (update s (outer t)) = outer (update s t)) : (r.within part update).Blind outer := by
  induction r with
  | done a => trivial
  | step act next ih =>
    refine ⟨fun t => ?_, fun b => ih b⟩
    dsimp only
    rw [hpart]
    exact ⟨rfl, hupdate _ t⟩
  | pause rest ih => exact ih

/-- Such a routine runs alike whether the state is tidied in between or not. -/
theorem Blind.run {r : Routine σ α} (h : r.Blind tidy) (s : σ) :
    (r.run s).1 = (r.runWith tidy (tidy s)).1 ∧ tidy (r.run s).2 = (r.runWith tidy (tidy s)).2 := by
  induction r generalizing s with
  | done a => exact ⟨rfl, rfl⟩
  | step act next ih =>
    obtain ⟨hanswer, hstate⟩ := h.1 s
    show ((next (act s).1).run (act s).2).1 = ((next (act (tidy s)).1).runWith tidy (tidy (act (tidy s)).2)).1 ∧
      tidy ((next (act s).1).run (act s).2).2 = ((next (act (tidy s)).1).runWith tidy (tidy (act (tidy s)).2)).2
    rw [hanswer, hstate]
    exact ih _ (h.2 _) (act s).2
  | pause rest ih => exact ih h s

/-- Every routine does something. -/
theorem does_any (r : Routine σ α) : r.Does fun _ _ => True := by
  induction r with
  | done a => trivial
  | step act next ih => exact ⟨fun _ => trivial, ih⟩
  | pause rest ih => exact ⟨fun _ => trivial, ih⟩

end CodeAtlas.Routine
