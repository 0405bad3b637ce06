/-! Routines: computations over shared state, cut into atomic sections.

A section reads and changes the state in one go. Between two sections of a routine
other routines may run, so a routine keeps for itself what it has read. A pause is
a place where it waits for somebody else before it goes on. -/
namespace CodeAtlas

inductive Routine (σ α : Type) : Type 1 where
  | done (a : α)
  | step {β : Type} (act : StateM σ β) (next : β → Routine σ α)
  | pause (rest : Routine σ α)

namespace Routine

variable {σ τ α β : Type}

def bind : Routine σ α → (α → Routine σ β) → Routine σ β
  | done a, f => f a
  | step act next, f => step act fun b => (next b).bind f
  | pause rest, f => pause (rest.bind f)

instance : Monad (Routine σ) where
  pure := done
  bind := bind

/-- One section. -/
def atomic (act : StateM σ α) : Routine σ α := step act done

/-- Read the state. -/
def look (f : σ → α) : Routine σ α := atomic fun s => (f s, s)

/-- Change the state. -/
def change (f : σ → σ) : Routine σ Unit := atomic fun s => ((), f s)

/-- Wait once. -/
def wait : Routine σ Unit := pause (done ())

/-- The same routine on a part of a larger state. -/
def within (part : τ → σ) (update : σ → τ → τ) : Routine σ α → Routine τ α
  | done a => done a
  | step act next =>
    step (fun t => let (b, s) := act (part t); (b, update s t)) fun b => (next b).within part update
  | pause rest => pause (rest.within part update)

/-- From beginning to end, with nothing in between. -/
def run : Routine σ α → StateM σ α
  | done a, s => (a, s)
  | step act next, s => let (b, s) := act s; (next b).run s
  | pause rest, s => rest.run s

/-- Up to the first pause, or to the end. -/
def runToPause : Routine σ α → σ → Routine σ α × σ
  | done a, s => (done a, s)
  | step act next, s => let (b, s) := act s; (next b).runToPause s
  | pause rest, s => (rest, s)

/-- Two routines side by side: each runs to its first pause, then each to its end. -/
def together (a : Routine σ α) (b : Routine σ β) (s : σ) : (α × β) × σ :=
  let (a, s) := a.runToPause s
  let (b, s) := b.runToPause s
  let (x, s) := a.run s
  let (y, s) := b.run s
  ((x, y), s)

end Routine

end CodeAtlas
