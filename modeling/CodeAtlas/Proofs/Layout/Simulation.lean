import CodeAtlas.Proofs.Layout.Placement
import Mathlib.Data.List.Forall2

/-! What a simulation does to its nodes, whatever the forces.

Every node is placed before the first step, and the steps move bodies only: a node is never
taken off its pin, nor set in motion if it has one, and nothing else of a node is touched
(`GraphNode.Simulated`). The steps are counted as they are taken, and all that are allowed
are taken if the nodes do not come to rest (`steps_outcome`). -/
namespace CodeAtlas

/-! ### Pins -/

namespace GraphNode

/-- The place a node is pinned to. -/
def pin? (n : GraphNode) : Option (Point Float) :=
  match n.fx, n.fy with
  | some x, some y => some ⟨x, y⟩
  | _, _ => none

theorem pin?_eq_some_iff {n : GraphNode} {p : Point Float} :
    n.pin? = some p ↔ n.fx = some p.x ∧ n.fy = some p.y := by
  unfold pin?
  split
  · rename_i x y hx hy
    rw [hx, hy]
    cases p
    simp
  · rename_i free
    exact ⟨nofun, fun h => (free p.x p.y h.1 h.2).elim⟩

theorem isPinned_of_pin? {n : GraphNode} {p : Point Float} (h : n.pin? = some p) : n.isPinned = true := by
  obtain ⟨hx, hy⟩ := pin?_eq_some_iff.mp h
  simp [isPinned, hx, hy]

theorem exists_pin_of_isPinned {n : GraphNode} (h : n.isPinned = true) : ∃ p, n.pin? = some p := by
  rw [isPinned, Bool.and_eq_true] at h
  obtain ⟨x, hx⟩ := Option.isSome_iff_exists.mp h.1
  obtain ⟨y, hy⟩ := Option.isSome_iff_exists.mp h.2
  exact ⟨⟨x, y⟩, pin?_eq_some_iff.mpr ⟨hx, hy⟩⟩

end GraphNode

/-! ### Bodies -/

namespace Force

/-- A body that may have been moved, but not if it is pinned. -/
structure Body.Held (b c : Body) : Prop where
  pinned : c.pinned = b.pinned
  held : b.pinned = true → c = b

theorem Body.Held.refl (b : Body) : b.Held b := ⟨rfl, fun _ => rfl⟩

theorem Body.Held.trans {a b c : Body} (h : a.Held b) (h' : b.Held c) : a.Held c :=
  ⟨h'.pinned.trans h.pinned, fun pinned => (h'.held (h.pinned.trans pinned)).trans (h.held pinned)⟩

theorem held_trans {as bs cs : List Body} (h : List.Forall₂ Body.Held as bs) (h' : List.Forall₂ Body.Held bs cs) :
    List.Forall₂ Body.Held as cs := by
  induction h generalizing cs with
  | nil => exact h'
  | cons first _ ih =>
    cases h' with
    | cons second rest => exact .cons (first.trans second) (ih rest)

theorem move_held (o : LayoutOptions) (b : Body) (f : Float × Float) : b.Held (move o b f).1 := by
  unfold move
  split
  · exact .refl b
  · rename_i free
    exact ⟨by simpa using free, fun pinned => absurd pinned free⟩

/-- One step moves no pinned body. -/
theorem step_held (o : LayoutOptions) {adjacent : List (List Nat)} {bodies : List Body}
    (h : adjacent.length = bodies.length) : List.Forall₂ Body.Held bodies (step o adjacent bodies).1 := by
  have moved (bodies : List Body) (fs : List (Float × Float)) (h : fs.length = bodies.length) :
      List.Forall₂ Body.Held bodies ((bodies.zipWith (move o) fs).map Prod.fst) := by
    induction bodies generalizing fs with
    | nil => simp
    | cons b rest ih =>
      cases fs with
      | nil => cases h
      | cons f fs => exact .cons (move_held o b f) (ih fs (Nat.succ.inj h))
  exact moved bodies _ (by rw [length_forces, h, Nat.min_self])

/-- However many steps are taken, no pinned body moves. -/
theorem steps_held (o : LayoutOptions) {adjacent : List (List Nat)} (left taken : Nat) {bodies : List Body}
    (h : adjacent.length = bodies.length) :
    List.Forall₂ Body.Held bodies (steps o adjacent left taken bodies).1 := by
  induction left generalizing taken bodies with
  | zero => exact List.forall₂_same.mpr fun b _ => .refl b
  | succ left ih =>
    have first := step_held o h
    rw [steps]
    dsimp only
    split
    · exact first
    · exact held_trans first (ih (taken + 1) (h.trans first.length_eq))

end Force

/-! ### Nodes -/

namespace GraphNode

/-- A node without all that a layout may change: where it is, how it moves, and whether it
has been placed. -/
def unplaced (n : GraphNode) : GraphNode := { n with x := 0.0, y := 0.0, vx := 0.0, vy := 0.0, positioned := false }

theorem isLasting_unplaced : IsLasting unplaced := fun _ _ _ _ _ _ => rfl

theorem pin?_unplaced (n : GraphNode) : n.unplaced.pin? = n.pin? := rfl

/-- What becomes of a node in a simulation. -/
structure Simulated (n m : GraphNode) : Prop where
  same : m.unplaced = n.unplaced
  positioned : m.positioned = true
  pinned : ∀ p, n.pin? = some p → m.position = p ∧ m.vx = 0.0 ∧ m.vy = 0.0

variable {n m : GraphNode}

theorem Simulated.pin?_eq (h : n.Simulated m) : m.pin? = n.pin? := by
  rw [← pin?_unplaced, h.same, pin?_unplaced]

/-- A node stays a simulated one when it follows a body that does not move off a pin. -/
theorem Simulated.settle {b : Force.Body} (h : n.Simulated m) (hb : (Force.Body.ofNode m).Held b) :
    n.Simulated (Force.settle m b) := by
  refine ⟨h.same, h.positioned, fun p hp => ?_⟩
  have hstill : b = Force.Body.ofNode m := hb.held (isPinned_of_pin? (h.pin?_eq.trans hp))
  rw [hstill]
  exact h.pinned p hp

end GraphNode

namespace Force

theorem placeOne_simulated (o : LayoutOptions) (n : GraphNode) (g : Random.Generator) :
    n.Simulated (placeOne o n g).1 := by
  unfold placeOne
  split
  · rename_i x y hx hy
    refine ⟨rfl, rfl, fun p hp => ?_⟩
    rw [GraphNode.pin?, hx, hy] at hp
    exact ⟨Option.some.inj hp, rfl, rfl⟩
  · rename_i hfree
    have hunpinned (p : Point Float) (hp : n.pin? = some p) : False :=
      (GraphNode.pin?_eq_some_iff.mp hp).elim (hfree p.x p.y)
    split <;> exact ⟨rfl, rfl, fun p hp => (hunpinned p hp).elim⟩

theorem placeAll_simulated (o : LayoutOptions) (nodes : List GraphNode) (g : Random.Generator) :
    List.Forall₂ GraphNode.Simulated nodes (placeAll o nodes g).1 := by
  induction nodes generalizing g with
  | nil => exact .nil
  | cons n rest ih => exact .cons (placeOne_simulated o n g) (ih _)

theorem all_isPinned_placeAll (o : LayoutOptions) (nodes : List GraphNode) (g : Random.Generator) :
    (placeAll o nodes g).1.all GraphNode.isPinned = nodes.all GraphNode.isPinned := by
  have hpins : (placeAll o nodes g).1.map GraphNode.isPinned = nodes.map GraphNode.isPinned :=
    map_placeAll (fun _ _ _ _ _ _ => rfl) o nodes g
  have hall (ns : List GraphNode) : ns.all GraphNode.isPinned = (ns.map GraphNode.isPinned).all id := by
    rw [List.all_map, Function.id_comp]
  rw [hall, hpins, ← hall]

/-- A simulation ends before its first step if every node is pinned, and otherwise puts
every node where the steps have taken its body. -/
theorem simulate_cases (d : GraphData) (o : LayoutOptions) (budget : Nat) (g : Random.Generator) :
    (d.nodes.all GraphNode.isPinned = true ∧
      simulate d o budget g = ⟨(placeAll o d.nodes g).1, ⟨0, true⟩, (placeAll o d.nodes g).2⟩) ∨
    (d.nodes.all GraphNode.isPinned = false ∧
      let after := steps o (adjacency d) budget 0 ((placeAll o d.nodes g).1.map Body.ofNode)
      simulate d o budget g =
        ⟨(placeAll o d.nodes g).1.zipWith settle after.1, after.2, (placeAll o d.nodes g).2⟩) := by
  rw [← all_isPinned_placeAll o d.nodes g]
  unfold simulate
  cases h : (placeAll o d.nodes g).1.all GraphNode.isPinned with
  | true => exact .inl ⟨rfl, by simp [h]⟩
  | false => exact .inr ⟨rfl, by simp [h]⟩

theorem settle_simulated {nodes placed : List GraphNode} {bodies : List Body}
    (h : List.Forall₂ GraphNode.Simulated nodes placed)
    (hb : List.Forall₂ Body.Held (placed.map Body.ofNode) bodies) :
    List.Forall₂ GraphNode.Simulated nodes (placed.zipWith settle bodies) := by
  induction h generalizing bodies with
  | nil => simp
  | cons first _ ih =>
    cases hb with
    | cons body rest => exact .cons (first.settle body) (ih rest)

theorem placed_held (d : GraphData) (o : LayoutOptions) (budget : Nat) (g : Random.Generator) :
    List.Forall₂ Body.Held ((placeAll o d.nodes g).1.map Body.ofNode)
      (steps o (adjacency d) budget 0 ((placeAll o d.nodes g).1.map Body.ofNode)).1 :=
  steps_held o budget 0 (by simp [adjacency, (placeAll_simulated o d.nodes g).length_eq])

theorem simulate_simulated (d : GraphData) (o : LayoutOptions) (budget : Nat) (g : Random.Generator) :
    List.Forall₂ GraphNode.Simulated d.nodes (simulate d o budget g).nodes := by
  obtain ⟨-, heq⟩ | ⟨-, heq⟩ := simulate_cases d o budget g
  · rw [heq]
    exact placeAll_simulated o d.nodes g
  · rw [heq]
    exact settle_simulated (placeAll_simulated o d.nodes g) (placed_held d o budget g)

/-- The steps are counted. Each of those allowed is taken, unless the nodes come to rest,
which takes at least one. -/
theorem steps_outcome (o : LayoutOptions) (adjacent : List (List Nat)) (left taken : Nat) (bodies : List Body) :
    let outcome := (steps o adjacent left taken bodies).2
    if outcome.converged then taken < outcome.iterations ∧ outcome.iterations ≤ taken + left
    else outcome.iterations = taken + left := by
  induction left generalizing taken bodies with
  | zero => exact rfl
  | succ left ih =>
    simp only [steps]
    split
    · exact ⟨Nat.lt_succ_self taken, by dsimp only; omega⟩
    · have hrest := ih (taken + 1) (step o adjacent bodies).1
      dsimp only at hrest
      split at hrest
      · rename_i hconverged
        rw [if_pos hconverged]
        omega
      · rename_i hmoving
        rw [if_neg hmoving]
        omega

/-- A simulation takes no more steps than it is allowed to, and exactly these if it does not
converge. It converges without a step exactly if every node is pinned. -/
theorem simulate_outcome (d : GraphData) (o : LayoutOptions) (budget : Nat) (g : Random.Generator) :
    let run := simulate d o budget g
    run.outcome.iterations ≤ budget ∧ (run.outcome.converged = false → run.outcome.iterations = budget) ∧
    (run.outcome = ⟨0, true⟩ ↔ ∀ n ∈ d.nodes, n.isPinned = true) := by
  intro run
  rw [← List.all_eq_true]
  obtain ⟨hpinned, heq⟩ | ⟨hfree, heq⟩ := simulate_cases d o budget g
  · rw [show run = _ from heq]
    exact ⟨Nat.zero_le budget, nofun, iff_of_true rfl hpinned⟩
  · have hcount := steps_outcome o (adjacency d) budget 0 ((placeAll o d.nodes g).1.map Body.ofNode)
    rw [show run = _ from heq, hfree]
    dsimp only at hcount ⊢
    generalize (steps o (adjacency d) budget 0 ((placeAll o d.nodes g).1.map Body.ofNode)).2 = outcome at hcount
    rw [Nat.zero_add] at hcount
    split at hcount
    · rename_i hconverged
      refine ⟨hcount.2, fun hmoving => absurd (hmoving.symm.trans hconverged) Bool.false_ne_true, ?_⟩
      refine iff_of_false (fun hnone => ?_) Bool.false_ne_true
      rw [hnone] at hcount
      exact Nat.not_lt_zero 0 hcount.1
    · rename_i hmoving
      refine ⟨Nat.le_of_eq hcount, fun _ => hcount, iff_of_false (fun hnone => hmoving ?_) Bool.false_ne_true⟩
      rw [hnone]

/-- Whatever the forces: a simulation ends with the same nodes in the same order, all of
them placed, and those that are pinned at their pins and not moving. It takes no more steps
than it is allowed to, and exactly these if it does not converge. It converges without a
step exactly if every node is pinned. -/
theorem simulation_keeps_its_nodes (d : GraphData) (o : LayoutOptions) (budget : Nat) (g : Random.Generator) :
    let run := simulate d o budget g
    List.Forall₂ GraphNode.Simulated d.nodes run.nodes ∧
    run.outcome.iterations ≤ budget ∧ (run.outcome.converged = false → run.outcome.iterations = budget) ∧
    (run.outcome = ⟨0, true⟩ ↔ ∀ n ∈ d.nodes, n.isPinned = true) :=
  ⟨simulate_simulated d o budget g, simulate_outcome d o budget g⟩

end Force

end CodeAtlas
