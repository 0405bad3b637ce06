import CodeAtlas.Proofs.Layout.Overflow
import CodeAtlas.Proofs.Layout.Placement

/-! Whether a layout that succeeds is finite.

Every call checks that places are finite before its last step. For a layout that is
computed or improved the last step fits the nodes into their canvas, which keeps them
finite exactly if the middle of their places is (`LayoutResult.IsFitted`). For an
incremental layout the check is made on the simulated nodes only, so it also takes
finite places of the nodes that are left alone. A call that fails changes nothing, and
one that succeeds is announced once, finite or not (`layout_is_finite_unless_lost`). -/
namespace CodeAtlas
open Binary64
open LayoutEngine

/-! ### Calls -/

inductive LayoutCall where
  | compute (d : GraphData) (algorithm : String) (u : LayoutOptionsUpdate)
  | incremental (d : GraphData) (previous : LayoutResult) (changed : List String)
  | optimize (r : LayoutResult) (extra : Option Nat)

namespace LayoutCall

def run (drawn : Random.Generator) : LayoutCall → StateM LayoutEngine (Except AtlasError LayoutResult)
  | compute d algorithm u => LayoutEngine.compute drawn d algorithm u
  | incremental d previous changed => LayoutEngine.incremental drawn d previous changed
  | optimize r extra => LayoutEngine.optimize drawn r extra

def answer (e : LayoutEngine) (drawn : Random.Generator) : LayoutCall → Except AtlasError LayoutResult
  | compute d algorithm u => e.compute? drawn d algorithm u
  | incremental d previous changed => incremental? drawn d previous changed
  | optimize r extra => optimize? drawn r extra

/-- The tag a result is announced under. -/
def tag : LayoutCall → LayoutResult → String
  | incremental .. => fun _ => "incremental"
  | _ => LayoutResult.algorithm

variable {call : LayoutCall} {drawn : Random.Generator} {e : LayoutEngine} {r : LayoutResult}

theorem run_eq (call : LayoutCall) (drawn : Random.Generator) (e : LayoutEngine) :
    call.run drawn e = announcing call.tag (call.answer e drawn) e := by
  cases call <;> rfl

/-- The engine after a layout has been announced. -/
def announced (call : LayoutCall) (r : LayoutResult) (e : LayoutEngine) : LayoutEngine :=
  { e with signals := e.signals ++ [.layoutComputed (call.tag r) r.nodes.length r.elapsedMs] }

theorem run_ok (h : call.answer e drawn = .ok r) : call.run drawn e = (.ok r, call.announced r e) := by
  rw [run_eq, h]
  rfl

theorem run_error {cause : AtlasError} (h : call.answer e drawn = .error cause) :
    call.run drawn e = (.error cause, e) := by
  rw [run_eq, h]
  rfl

/-- Does the call fit its nodes into the canvas? -/
def fits : LayoutCall → Bool
  | incremental .. => false
  | _ => true

end LayoutCall

/-! ### Checks passed -/

theorem ok_of_bind {α β : Type} {x : Except AtlasError α} {f : α → Except AtlasError β} {b : β}
    (h : (x >>= f) = .ok b) : ∃ a, x = .ok a ∧ f a = .ok b := by
  cases x with
  | error err => cases h
  | ok a => exact ⟨a, rfl, h⟩

theorem ok_of_mapError {α : Type} {x : Except AtlasError α} {f : AtlasError → AtlasError} {a : α}
    (h : x.mapError f = .ok a) : x = .ok a := by
  cases x with
  | error err => cases h
  | ok b => exact h

/-- An answer that passes a check is a success. -/
theorem exists_ok_of_any {ε α : Type} {answer : Except ε α} {check : α → Bool}
    (h : answer.toOption.any check = true) : ∃ a, answer = .ok a ∧ check a = true := by
  cases answer with
  | error cause => cases h
  | ok a => exact ⟨a, rfl, h⟩

theorem usable_of_ok {tag : String} {o : LayoutOptions} (h : ensureUsable tag o = .ok ()) : o.fault? = none := by
  unfold ensureUsable at h
  split at h
  · cases h
  · assumption

theorem placed_of_ok {tag : String} {nodes : List GraphNode} (h : ensureFinite tag nodes = .ok ()) :
    ∀ n ∈ nodes, isPlaced n = true := by
  unfold ensureFinite at h
  split at h
  · cases h
  · rename_i none
    simpa using none

/-! ### Fitted layouts -/

/-- A result that has been fitted into its canvas, from nodes that were found finite. -/
structure LayoutResult.IsFitted (r : LayoutResult) (nodes : List GraphNode) : Prop where
  usable : r.options.fault? = none
  checked : ∀ n ∈ nodes, isPlaced n = true
  fitted : r.nodes = r.options.normalize nodes

/-- A canvas on which rounding cannot overflow: up to a quarter of the limit wide and high. -/
def LayoutOptions.IsModest (o : LayoutOptions) : Prop := value o.width ≤ limit / 4 ∧ value o.height ≤ limit / 4

theorem LayoutResult.IsFitted.placed {r : LayoutResult} {nodes : List GraphNode} (h : r.IsFitted nodes)
    (modest : r.options.IsModest) (centered : isCentered nodes = true) : ∀ n ∈ r.nodes, isPlaced n = true :=
  h.fitted ▸ normalize_placed h.usable modest h.checked centered

theorem LayoutResult.IsFitted.lost {r : LayoutResult} {nodes : List GraphNode} (h : r.IsFitted nodes)
    (lost : isCentered nodes = false) : r.nodes ≠ [] ∧ ∀ n ∈ r.nodes, isPlaced n = false :=
  h.fitted ▸ normalize_unplaced h.usable h.checked lost

variable {drawn : Random.Generator}

theorem compute?_fitted {e : LayoutEngine} {d : GraphData} {algorithm : String} {u : LayoutOptionsUpdate}
    {r : LayoutResult} (h : e.compute? drawn d algorithm u = .ok r) :
    r.options = scaleForSize (u.apply e.defaults) d.nodes.length ∧
      ∃ strategy placed outcome, e.resolve algorithm = .ok (r.algorithm, strategy) ∧
        strategy drawn d r.options = .ok (placed, outcome) ∧ r.IsFitted placed.nodes := by
  obtain ⟨⟨tag, strategy⟩, resolved, h⟩ := ok_of_bind h
  obtain ⟨⟨⟩, usable, h⟩ := ok_of_bind h
  obtain ⟨⟨placed, outcome⟩, laidOut, h⟩ := ok_of_bind h
  obtain ⟨⟨⟩, finite, h⟩ := ok_of_bind h
  cases h
  exact ⟨rfl, strategy, placed, outcome, resolved, ok_of_mapError laidOut,
    usable_of_ok usable, placed_of_ok finite, rfl⟩

/-- A layout is made of what a strategy places at finite places with usable options. -/
theorem compute?_of_placed {e : LayoutEngine} {d placed : GraphData} {algorithm tag : String}
    {u : LayoutOptionsUpdate} {strategy : Strategy} {outcome : LayoutOutcome}
    (resolved : e.resolve algorithm = .ok (tag, strategy)) :
    let options := scaleForSize (u.apply e.defaults) d.nodes.length
    options.fault? = none → strategy drawn d options = .ok (placed, outcome) →
      (∀ n ∈ placed.nodes, isPlaced n = true) →
      ∃ r, e.compute? drawn d algorithm u = .ok r ∧ r.iterations = outcome.iterations := by
  intro options usable laidOut checked
  have ensured : ensureUsable tag options = .ok () := by rw [ensureUsable, usable]
  have finite : ensureFinite tag placed.nodes = .ok () := by
    rw [ensureFinite, List.find?_eq_none.mpr fun n hn => by simp [checked n hn]]
  let r : LayoutResult :=
    { nodes := options.normalize placed.nodes, edges := placed.edges, algorithm := tag, options,
      iterations := outcome.iterations, converged := outcome.converged }
  have computed : e.compute? drawn d algorithm u = .ok r := by
    rw [compute?, resolved]
    change (ensureUsable tag options >>= fun _ => (strategy drawn d options).mapError _ >>= fun _ => _) = _
    rw [ensured, laidOut]
    change (ensureFinite tag placed.nodes >>= fun _ => _) = _
    rw [finite]
    rfl
  exact ⟨r, computed, rfl⟩

/-- The simulation that an improved layout is taken from. -/
def resumed (drawn : Random.Generator) (r : LayoutResult) (extra : Option Nat) : Force.Run :=
  Force.simulate { nodes := r.nodes.map fun n => { n with positioned := true }, edges := r.edges } r.options
    (extra.getD r.options.iterations) (r.options.generator drawn)

theorem optimize?_fitted {r result : LayoutResult} {extra : Option Nat}
    (h : optimize? drawn r extra = .ok result) : result.IsFitted (resumed drawn r extra).nodes := by
  obtain ⟨⟨⟩, usable, h⟩ := ok_of_bind h
  obtain ⟨⟨⟩, finite, h⟩ := ok_of_bind h
  cases h
  exact ⟨usable_of_ok usable, placed_of_ok finite, rfl⟩

/-! ### Incremental layouts -/

/-- The nodes of an incremental layout that are not simulated, where they were. -/
def leftWhereTheyWere (d : GraphData) (previous : LayoutResult) (changed : List String) : List GraphNode :=
  leftAlone (affectedIds d previous.nodes changed).contains (d.nodes.map (recallPosition previous.nodes))

theorem incremental?_placed_iff {d : GraphData} {previous result : LayoutResult} {changed : List String}
    (h : incremental? drawn d previous changed = .ok result) :
    (∀ n ∈ result.nodes, isPlaced n = true) ↔
      ∀ n ∈ leftWhereTheyWere d previous changed, isPlaced n = true := by
  obtain ⟨-, -, h⟩ := ok_of_bind h
  obtain ⟨⟨⟩, finite, h⟩ := ok_of_bind h
  cases h
  let recalled : GraphData := { d with nodes := d.nodes.map (recallPosition previous.nodes) }
  have settled := (Settled.start recalled.nodes).foldl _ (placed_of_ok finite)
  rw [List.append_nil, Force.simulate_ids] at settled
  refine (Settled.placed_iff settled).trans ?_
  rw [leftWhereTheyWere, leftAlone_congr fun n hn => ?_]
  rw [Bool.eq_iff_iff, List.contains_iff_mem, List.mem_reverse, List.mem_map]
  constructor
  · rintro ⟨m, hm, same⟩
    exact same ▸ (List.mem_filter.1 hm).2
  · intro touched
    exact ⟨n, List.mem_filter.2 ⟨hn, touched⟩, rfl⟩

/-! ### Every call -/

/-- What a call has to find for its result to be finite: a finite middle of the nodes it
fits, or finite places of the nodes it leaves alone. -/
def LayoutCall.FindsFinite (e : LayoutEngine) (drawn : Random.Generator) (r : LayoutResult) : LayoutCall → Prop
  | .compute d algorithm _ => ∃ strategy placed outcome, e.resolve algorithm = .ok (r.algorithm, strategy) ∧
      strategy drawn d r.options = .ok (placed, outcome) ∧ isCentered placed.nodes = true
  | .incremental d previous changed => ∀ n ∈ leftWhereTheyWere d previous changed, isPlaced n = true
  | .optimize previous extra => isCentered (resumed drawn previous extra).nodes = true

theorem LayoutCall.finite_iff {e : LayoutEngine} {call : LayoutCall} {r : LayoutResult}
    (h : call.answer e drawn = .ok r) :
    ((∀ n ∈ r.nodes, isPlaced n = true) → call.FindsFinite e drawn r) ∧
      (call.FindsFinite e drawn r → (call.fits = true → r.options.IsModest) → ∀ n ∈ r.nodes, isPlaced n = true) := by
  have centered {nodes : List GraphNode} (h : r.IsFitted nodes) (placed : ∀ n ∈ r.nodes, isPlaced n = true) :
      isCentered nodes = true := by
    by_contra lost
    obtain ⟨some, nowhere⟩ := h.lost (by simpa using lost)
    obtain ⟨n, hn⟩ := List.exists_mem_of_ne_nil _ some
    simpa [nowhere n hn] using placed n hn
  cases call with
  | compute d algorithm u =>
    obtain ⟨-, strategy, placed, outcome, resolved, laidOut, fitted⟩ := compute?_fitted h
    refine ⟨fun all => ⟨strategy, placed, outcome, resolved, laidOut, centered fitted all⟩, ?_⟩
    rintro ⟨strategy', placed', outcome', resolved', laidOut', finite⟩ modest
    cases resolved.symm.trans resolved'
    cases laidOut.symm.trans laidOut'
    exact fitted.placed (modest rfl) finite
  | incremental d previous changed =>
    exact ⟨(incremental?_placed_iff h).1, fun finite _ => (incremental?_placed_iff h).2 finite⟩
  | optimize previous extra =>
    have fitted := optimize?_fitted h
    exact ⟨centered fitted, fun finite modest => fitted.placed (modest rfl) finite⟩

/-- Whatever is drawn, a call that fails changes nothing. A call that succeeds is announced
once, and its result has no node outside of the finite numbers if it has found what it needs,
given a modest canvas where it fits its nodes into one; otherwise it has such a node. -/
theorem layout_is_finite_unless_lost (e : LayoutEngine) (drawn : Random.Generator) (call : LayoutCall) :
    (∀ cause after, call.run drawn e = (.error cause, after) → after = e) ∧
      ∀ r after, call.run drawn e = (.ok r, after) →
        after = { e with signals := e.signals ++ [.layoutComputed (call.tag r) r.nodes.length r.elapsedMs] } ∧
        (call.FindsFinite e drawn r → (call.fits = true → r.options.IsModest) →
          ∀ n ∈ r.nodes, isPlaced n = true) ∧
        (¬call.FindsFinite e drawn r → ∃ n ∈ r.nodes, isPlaced n = false) := by
  cases h : call.answer e drawn with
  | error cause =>
    rw [LayoutCall.run_error h]
    exact ⟨fun _ _ same => (Prod.ext_iff.1 same).2.symm, fun _ _ other => nomatch other⟩
  | ok r =>
    rw [LayoutCall.run_ok h]
    refine ⟨fun _ _ other => (nomatch other), fun r' after same => ?_⟩
    obtain ⟨found, rfl⟩ := Prod.ext_iff.1 same
    obtain rfl := Except.ok.inj found
    obtain ⟨necessary, sufficient⟩ := LayoutCall.finite_iff h
    refine ⟨rfl, sufficient, fun not => ?_⟩
    by_contra all
    exact not (necessary fun n hn => by_contra fun lost => all ⟨n, hn, by simpa using lost⟩)

/-! Two nodes that are pinned on the horizontal axis. -/

def pinnedAt (id : String) (x : Float) : GraphNode :=
  { GraphNode.ofSymbol default with id, fx := some x, fy := some 0.0 }

def pinnedPair (x y : Float) : GraphData := { nodes := [pinnedAt "a" x, pinnedAt "b" y] }

/-- Lay out a pinned pair with the built-in strategies and the usual options. -/
def layOutPair (x y : Float) : LayoutCall := .compute (pinnedPair x y) LayoutAlgorithm.forceDirected.tag {}

theorem simulate_pinnedPair (x y : Float) (o : LayoutOptions) (iterations : Nat) (g : Random.Generator) :
    (Force.simulate (pinnedPair x y) o iterations g).nodes =
      [Force.still ((pinnedAt "a" x).setPosition x 0.0), Force.still ((pinnedAt "b" y).setPosition y 0.0)] := rfl

theorem usual_canvas_isModest : ({} : LayoutOptions).IsModest := by
  have width : value 1200.0 = 1200 := by
    have stored : parts 1200.0 = .finite .positive 5277655813324800 (-42) (by norm_num) := rfl
    rw [value, stored]
    norm_num [toRat, unit]
  have height : value 800.0 = 800 := by
    have stored : parts 800.0 = .finite .positive 7036874417766400 (-43) (by norm_num) := rfl
    rw [value, stored]
    norm_num [toRat, unit]
  have large := two_zpow_le_limit (k := 20) (by norm_num)
  norm_num at large
  constructor
  · change value 1200.0 ≤ limit / 4
    linarith
  · change value 800.0 ≤ limit / 4
    linarith

/-- Two pins at both sides of the origin are laid out at finite places. -/
theorem near_pins_are_laid_out :
    ∃ r after, (layOutPair (-10.0) 10.0).run (.ofSeed 0) (.ofDefaults {}) = (.ok r, after) ∧
      r.nodes.length = 2 ∧ ∀ n ∈ r.nodes, isPlaced n = true := by
  have found : ((layOutPair (-10.0) 10.0).answer (.ofDefaults {}) (.ofSeed 0)).toOption.any
      (·.nodes.length == 2) = true := by
    decide +kernel
  obtain ⟨r, h, two⟩ := exists_ok_of_any found
  have ran := LayoutCall.run_ok h
  refine ⟨r, _, ran, by simpa using two, ?_⟩
  refine ((layout_is_finite_unless_lost (.ofDefaults {}) (.ofSeed 0) (layOutPair (-10.0) 10.0)).2 r _ ran).2.1 ?_ fun _ => ?_
  all_goals obtain ⟨options, strategy, placed, outcome, resolved, laidOut, -⟩ := compute?_fitted h
  · refine ⟨strategy, placed, outcome, resolved, laidOut, ?_⟩
    have builtIn : (ofDefaults {}).resolve LayoutAlgorithm.forceDirected.tag =
        .ok (LayoutAlgorithm.forceDirected.tag, Strategy.forceDirected) := rfl
    obtain ⟨-, rfl⟩ := Prod.ext_iff.1 (Except.ok.inj (builtIn.symm.trans resolved))
    obtain ⟨rfl, -⟩ := Prod.ext_iff.1 (Except.ok.inj laidOut)
    change isCentered (Force.simulate (pinnedPair (-10.0) 10.0) r.options r.options.iterations
      (r.options.generator (.ofSeed 0))).nodes = true
    rw [simulate_pinnedPair]
    decide +kernel
  · rw [options]
    exact usual_canvas_isModest

/-- Two pins whose sum is beyond the finite numbers are laid out nowhere, and the layout
is announced. -/
theorem far_pins_are_laid_out_nowhere :
    ∃ r after, (layOutPair 1e308 1.5e308).run (.ofSeed 0) (.ofDefaults {}) = (.ok r, after) ∧
      r.nodes.length = 2 ∧ (∀ n ∈ r.nodes, isPlaced n = false) ∧ after.signals.length = 1 := by
  have found : ((layOutPair 1e308 1.5e308).answer (.ofDefaults {}) (.ofSeed 0)).toOption.any (fun r =>
      r.nodes.length == 2 && r.nodes.all (!isPlaced ·)) = true := by
    decide +kernel
  obtain ⟨r, h, lost⟩ := exists_ok_of_any found
  simp only [Bool.and_eq_true, beq_iff_eq, List.all_eq_true, Bool.not_eq_true'] at lost
  exact ⟨r, _, LayoutCall.run_ok h, lost.1, lost.2, rfl⟩

end CodeAtlas
