import CodeAtlas.Proofs.Float.Magnitude
import CodeAtlas.Proofs.Layout.Simulation

/-! When the nodes of a simulation are at rest.

A step measures how fast each body goes and then lets its velocity decay, and the greatest
speed of a step passes over undefined ones. So a simulation that converges ends with
velocities that had a speed below the limit before their last decay, or none that is
defined (`GraphNode.CameToRest`). A decay by a factor of at most one makes no component
greater, so the speed stays below the limit; an undefined velocity takes the node to an
undefined place. The nodes of a converged simulation are then at rest, except for those
that are nowhere (`rest_is_reported`). Neither can be left out (`rest_is_misreported`). -/
namespace CodeAtlas
open Binary64 Scalar
open LayoutEngine (isPlaced)

/-! ### The greatest speed -/

theorem greatestFloat_of_isNaN {x y : Float} (hx : x.isNaN = false) (hy : y.isNaN = true) : greatestFloat x y = x := by
  rw [greatestFloat, hx, hy]
  rfl

/-- The greatest of some floats is defined if the first is, and none that is defined is greater. -/
theorem foldl_greatestFloat {a : Float} (ha : a.isNaN = false) (xs : List Float) :
    (xs.foldl greatestFloat a).isNaN = false ∧ value a ≤ value (xs.foldl greatestFloat a) ∧
      ∀ x ∈ xs, x.isNaN = false → value x ≤ value (xs.foldl greatestFloat a) := by
  induction xs generalizing a with
  | nil => exact ⟨ha, le_rfl, nofun⟩
  | cons x rest ih =>
    rw [List.foldl_cons]
    cases hx : x.isNaN with
    | true =>
      rw [greatestFloat_of_isNaN ha hx]
      obtain ⟨hnumber, hfirst, hrest⟩ := ih ha
      refine ⟨hnumber, hfirst, List.forall_mem_cons.mpr ⟨fun hnumber => ?_, hrest⟩⟩
      rw [hx] at hnumber
      contradiction
    | false =>
      obtain ⟨hnumber, hvalue⟩ := value_greatestFloat ha hx
      obtain ⟨hnumber', hfirst, hrest⟩ := ih hnumber
      rw [hvalue] at hfirst
      refine ⟨hnumber', (le_max_left _ _).trans hfirst, List.forall_mem_cons.mpr ⟨fun _ => ?_, hrest⟩⟩
      exact (le_max_right _ _).trans hfirst

/-- Below the limit, or undefined. -/
def IsSlow (speed : Float) : Prop := speed < Force.restSpeed ∨ speed.isNaN = true

theorem isSlow_of_greatest {speeds : List Float} (h : speeds.foldl greatestFloat 0.0 < Force.restSpeed) :
    ∀ speed ∈ speeds, IsSlow speed := by
  intro speed hspeed
  obtain ⟨hnumber, -, hgreatest⟩ := foldl_greatestFloat (a := 0.0) (by decide) speeds
  cases hundefined : speed.isNaN with
  | true => exact .inr hundefined
  | false =>
    have hrest := (number_of_lt h).2
    rw [lt_iff hnumber hrest] at h
    exact .inl ((lt_iff hundefined hrest).mpr ((hgreatest speed hspeed hundefined).trans_lt h))

/-! ### Steps -/

namespace Force

/-- Where a body comes to in its last step: its velocity was slow, and has then decayed. -/
def Body.CameToRest (o : LayoutOptions) (b : Body) : Prop :=
  ∃ x y vx vy, IsSlow (magnitude vx vy) ∧ b.x = clamp (x + vx) 0.0 o.width ∧ b.y = clamp (y + vy) 0.0 o.height ∧
    b.vx = vx * o.velocityDecay ∧ b.vy = vy * o.velocityDecay

theorem move_speed {o : LayoutOptions} {b : Body} {f : Float × Float} {speed : Float}
    (h : (move o b f).2 = some speed) (hslow : IsSlow speed) : (move o b f).1.CameToRest o := by
  unfold move at h ⊢
  split at h
  · cases h
  · rename_i hfree
    rw [if_neg hfree]
    dsimp only at h ⊢
    generalize (if _ > maxSpeed then _ else _ : Float × Float) = v at h ⊢
    obtain rfl := Option.some.inj h
    exact ⟨b.x, b.y, v.1, v.2, hslow, rfl, rfl, rfl, rfl⟩

theorem move_pinned {o : LayoutOptions} {b : Body} {f : Float × Float} (h : (move o b f).2 = none) :
    (move o b f).1.pinned = true := by
  unfold move at h ⊢
  split at h
  · rename_i hpinned
    rw [if_pos hpinned]
    exact hpinned
  · cases h

/-- If the greatest speed of a step is below the limit, all that are free come to rest. -/
theorem step_cameToRest {o : LayoutOptions} {adjacent : List (List Nat)} {bodies : List Body}
    (h : (step o adjacent bodies).2 < restSpeed) :
    ∀ b ∈ (step o adjacent bodies).1, b.pinned = false → b.CameToRest o := by
  unfold step at h ⊢
  dsimp only at h ⊢
  intro b hb hfree
  obtain ⟨moved, hmoved, rfl⟩ := List.mem_map.mp hb
  obtain ⟨⟨body, f⟩, -, rfl⟩ := List.mem_map.mp (List.map_uncurry_zip_eq_zipWith.symm ▸ hmoved)
  rw [Function.uncurry_apply_pair] at hfree hmoved ⊢
  cases hspeed : (move o body f).2 with
  | none =>
    rw [move_pinned hspeed] at hfree
    contradiction
  | some speed =>
    exact move_speed hspeed (isSlow_of_greatest h speed (List.mem_filterMap.mpr ⟨_, hmoved, hspeed⟩))

/-- If the steps converge, all that are free come to rest in the last one. -/
theorem steps_cameToRest {o : LayoutOptions} {adjacent : List (List Nat)} (left taken : Nat) {bodies : List Body}
    (h : (steps o adjacent left taken bodies).2.converged = true) :
    ∀ b ∈ (steps o adjacent left taken bodies).1, b.pinned = false → b.CameToRest o := by
  induction left generalizing taken bodies with
  | zero => contradiction
  | succ left ih =>
    rw [steps] at h ⊢
    dsimp only at h ⊢
    split at h
    · rename_i hslow
      rw [if_pos hslow]
      exact step_cameToRest hslow
    · rename_i hfast
      rw [if_neg hfast]
      exact ih (taken + 1) h

theorem settle_cameToRest {o : LayoutOptions} {nodes : List GraphNode} {bodies : List Body}
    (hheld : List.Forall₂ Body.Held (nodes.map Body.ofNode) bodies)
    (hrest : ∀ b ∈ bodies, b.pinned = false → b.CameToRest o) :
    ∀ n ∈ nodes.zipWith settle bodies, n.isPinned = false → (Body.ofNode n).CameToRest o := by
  intro n hn hfree
  obtain ⟨⟨m, b⟩, hpair, rfl⟩ := List.mem_map.mp (List.map_uncurry_zip_eq_zipWith.symm ▸ hn)
  have hbody : (Body.ofNode m).Held b := (List.forall₂_iff_zip.mp (List.forall₂_map_left_iff.mp hheld)).2 hpair
  exact hrest b (List.of_mem_zip hpair).2 (hbody.pinned.trans hfree)

theorem simulate_cameToRest {d : GraphData} {o : LayoutOptions} {budget : Nat} {g : Random.Generator}
    (h : (simulate d o budget g).outcome.converged = true) :
    ∀ n ∈ (simulate d o budget g).nodes, n.isPinned = false → (Body.ofNode n).CameToRest o := by
  obtain ⟨hpinned, heq⟩ | ⟨-, heq⟩ := simulate_cases d o budget g
  · rw [heq]
    intro n hn hfree
    rw [← all_isPinned_placeAll o d.nodes g, List.all_eq_true] at hpinned
    rw [hpinned n hn] at hfree
    contradiction
  · rw [heq] at h ⊢
    exact settle_cameToRest (placed_held d o budget g) (steps_cameToRest budget 0 h)

/-! ### Decay -/

theorem value_one : value 1.0 = 1 := by
  rw [value, show parts 1.0 = .finite .positive (2 ^ 52) (-52) (by decide) from rfl, toRat, unit]
  norm_num

theorem value_minus_one : value (-1.0) = -1 := by
  rw [value, show parts (-1.0) = .finite .negative (2 ^ 52) (-52) (by decide) from rfl, toRat, unit]
  norm_num

/-- A factor of at most one makes no number greater. -/
theorem abs_value_mul_le {v factor : Float} (hv : v.isFinite = true) (hlow : -1.0 ≤ factor) (hhigh : factor ≤ 1.0) :
    (v * factor).isFinite = true ∧ |value (v * factor)| ≤ |value v| := by
  obtain ⟨hnumber, hone⟩ := number_of_le hhigh
  have hunit : |value factor| ≤ 1 := by
    rw [le_iff (number_of_le hlow).1 hnumber, value_minus_one] at hlow
    rw [le_iff hnumber hone, value_one] at hhigh
    exact abs_le.mpr ⟨hlow, hhigh⟩
  have hlimit : 1 < limit := value_one ▸ (abs_lt.mp (abs_value_lt (x := 1.0) rfl)).2
  have hfactor : factor.isFinite = true := isFinite_of_abs_lt hnumber (hunit.trans_lt hlimit)
  have hproduct : |value v * value factor| ≤ |value v| := by
    rw [abs_mul]
    exact mul_le_of_le_one_right (abs_nonneg _) hunit
  have hrounding := isRounding_mul hv hfactor
  exact ⟨hrounding.isFinite (onGrid_value v).abs (abs_value_lt hv) hproduct,
    hrounding.abs_value_le (onGrid_value v).abs hproduct⟩

theorem clamp_of_isNaN {x : Float} (h : x.isNaN = true) (lo hi : Float) : clamp x lo hi = x := by
  have hnumber {p : Prop} (hx : x.isNaN = false) : p := by
    rw [h] at hx
    contradiction
  unfold clamp
  rw [if_neg fun hlow => hnumber (number_of_lt hlow).1, if_neg fun hhigh => hnumber (number_of_lt hhigh).2]

/-- The components of a slow vector are finite. -/
theorem isFinite_of_slow {vx vy : Float} (h : magnitude vx vy < restSpeed) :
    vx.isFinite = true ∧ vy.isFinite = true := by
  obtain ⟨hnumber, hrest⟩ := number_of_lt h
  rw [← Bool.not_eq_true, isNaN_magnitude_iff, not_or, Bool.not_eq_true, Bool.not_eq_true] at hnumber
  obtain ⟨hx, hy⟩ := hnumber
  have hsize := isSize_magnitude hx hy
  rw [lt_iff hsize.number hrest] at h
  have hlimit : value restSpeed < limit := (abs_lt.mp (abs_value_lt rfl)).2
  exact isFinite_of_magnitude hx hy (hsize.isFinite_iff.mpr (h.trans hlimit))

/-- What came to rest is still slow after a decay by at most one, unless it is nowhere. -/
theorem Body.CameToRest.speed_lt {o : LayoutOptions} {b : Body} (h : b.CameToRest o) (hlow : -1.0 ≤ o.velocityDecay)
    (hhigh : o.velocityDecay ≤ 1.0) :
    b.speed < restSpeed ∨ b.speed.isNaN = true ∧ (b.x.isFinite && b.y.isFinite) = false := by
  obtain ⟨x, y, vx, vy, hspeed, hx, hy, hvx, hvy⟩ := h
  have hmagnitude : b.speed = magnitude (vx * o.velocityDecay) (vy * o.velocityDecay) := by
    rw [Body.speed, hvx, hvy, magnitude]
  rw [hmagnitude, hx, hy]
  obtain hslow | hundefined := hspeed
  · left
    obtain ⟨hfx, hfy⟩ := isFinite_of_slow hslow
    obtain ⟨hfx', hlex⟩ := abs_value_mul_le hfx hlow hhigh
    obtain ⟨hfy', hley⟩ := abs_value_mul_le hfy hlow hhigh
    obtain ⟨hnumber, hrest⟩ := number_of_lt hslow
    have hnumber' := (isSize_magnitude (isNaN_of_isFinite hfx') (isNaN_of_isFinite hfy')).number
    rw [lt_iff hnumber hrest] at hslow
    exact (lt_iff hnumber' hrest).mpr ((magnitude_le hfx' hfy' hfx hfy hlex hley).trans_lt hslow)
  · right
    have hnowhere {z : Float} (hz : z.isNaN = true) (hi : Float) : (clamp z 0.0 hi).isFinite = false := by
      rw [clamp_of_isNaN hz, isFinite_eq, parts_of_isNaN hz]
      rfl
    rw [isNaN_magnitude_iff]
    obtain hvx | hvy := isNaN_magnitude_iff.mp hundefined
    · exact ⟨.inl (isNaN_mul_left hvx _), by rw [hnowhere (isNaN_add_right x hvx), Bool.false_and]⟩
    · exact ⟨.inr (isNaN_mul_left hvy _), by rw [hnowhere (isNaN_add_right y hvy), Bool.and_false]⟩

/-! ### Nodes -/

theorem pinned_atRest {d : GraphData} {o : LayoutOptions} {budget : Nat} {g : Random.Generator} {n : GraphNode}
    (hn : n ∈ (simulate d o budget g).nodes) (hpinned : n.isPinned = true) : n.speed < restSpeed := by
  obtain ⟨i, hi, rfl⟩ := List.mem_iff_getElem.mp hn
  have hnodes := simulate_simulated d o budget g
  have hsimulated := (List.forall₂_iff_get.mp hnodes).2 i (hnodes.length_eq ▸ hi) hi
  obtain ⟨p, hp⟩ := GraphNode.exists_pin_of_isPinned hpinned
  obtain ⟨-, hvx, hvy⟩ := hsimulated.pinned p (hsimulated.pin?_eq.symm.trans hp)
  rw [GraphNode.speed, show (simulate d o budget g).nodes[i].vx = 0.0 from hvx,
    show (simulate d o budget g).nodes[i].vy = 0.0 from hvy]
  decide +kernel

/-- A simulation that does not converge has taken all the steps it is allowed. One that
converges has taken no more, and its nodes came to rest: the pinned ones do not move, and
the others were slow, if their speed was defined at all, before their velocity decayed for
the last time. With a decay by at most one they are slow in the end, except for those that
are nowhere. -/
theorem rest_is_reported (d : GraphData) (o : LayoutOptions) (budget : Nat) (g : Random.Generator) :
    let run := simulate d o budget g
    (run.outcome.converged = false ∧ run.outcome.iterations = budget) ∨
    (run.outcome.converged = true ∧ run.outcome.iterations ≤ budget ∧ ∀ n ∈ run.nodes,
      (n.isPinned = true → n.speed < restSpeed) ∧
      (n.isPinned = false → (Body.ofNode n).CameToRest o) ∧
      (-1.0 ≤ o.velocityDecay → o.velocityDecay ≤ 1.0 →
        n.speed < restSpeed ∨ n.speed.isNaN = true ∧ isPlaced n = false)) := by
  intro run
  obtain ⟨hwithin, hall, -⟩ := simulate_outcome d o budget g
  cases hconverged : run.outcome.converged with
  | false => exact .inl ⟨rfl, hall hconverged⟩
  | true =>
    refine .inr ⟨rfl, hwithin, fun n hn => ?_⟩
    refine ⟨pinned_atRest hn, simulate_cameToRest hconverged n hn, fun hlow hhigh => ?_⟩
    cases hpinned : n.isPinned with
    | true => exact .inl (pinned_atRest hn hpinned)
    | false => exact (simulate_cameToRest hconverged n hn hpinned).speed_lt hlow hhigh

/-- A node that has been placed. -/
def nodeAt (id : String) (x y : Float) : GraphNode := { GraphNode.ofSymbol default with id, x, y, positioned := true }

/-- A path of three nodes. -/
def pathThrough (first second third : GraphNode) : GraphData :=
  { nodes := [first, second, third]
    edges := [{ (default : GraphEdge) with source := first.id, target := second.id },
      { (default : GraphEdge) with source := second.id, target := third.id }] }

/-- A path that is a little longer than the forces have it. -/
def stretchedPath : GraphData := pathThrough (nodeAt "a" 515.0 400.0) (nodeAt "b" 600.0 400.0) (nodeAt "c" 685.0 400.0)

/-- The usual decay is less than one, so a path that converges somewhere is at rest. -/
theorem path_is_at_rest :
    (simulate stretchedPath {} 300 (.ofSeed 0)).outcome.converged = true ∧
    ∀ n ∈ (simulate stretchedPath {} 300 (.ofSeed 0)).nodes, n.speed < restSpeed := by
  have hrun : (simulate stretchedPath {} 300 (.ofSeed 0)).outcome.converged = true ∧
      ∀ n ∈ (simulate stretchedPath {} 300 (.ofSeed 0)).nodes, isPlaced n = true := by
    decide +kernel
  obtain ⟨hconverged, hplaced⟩ := hrun
  refine ⟨hconverged, fun n hn => ?_⟩
  obtain ⟨hmoving, -⟩ | ⟨-, -, hrest⟩ := rest_is_reported stretchedPath {} 300 (.ofSeed 0)
  · rw [hconverged] at hmoving
    cases hmoving
  · obtain hslow | ⟨-, hlost⟩ := (hrest n hn).2.2 (by decide +kernel) (by decide +kernel)
    · exact hslow
    · rw [hplaced n hn] at hlost
      cases hlost

/-- A path with its first node pinned out of all reach. -/
def torn : GraphData :=
  pathThrough { nodeAt "a" 0.0 0.0 with fx := some 1e200, fy := some 0.0 } (nodeAt "b" 600.0 400.0)
    (nodeAt "c" 700.0 400.0)

/-- A simulation that converges does not always leave its nodes slow. The usual forces are
undefined next to a pin that is far away, and no check refuses a decay by more than one. -/
theorem rest_is_misreported :
    (∃ n ∈ (simulate torn {} 2 (.ofSeed 0)).nodes, ¬n.speed < restSpeed) ∧
    (simulate torn {} 2 (.ofSeed 0)).outcome = ⟨2, true⟩ ∧
    ∃ o : LayoutOptions, o.fault? = none ∧ ∃ d, (∃ n ∈ (simulate d o 1 (.ofSeed 0)).nodes, ¬n.speed < restSpeed) ∧
      (simulate d o 1 (.ofSeed 0)).outcome = ⟨1, true⟩ :=
  ⟨by decide +kernel, by decide +kernel, { velocityDecay := 1000.0 }, by decide +kernel,
    { nodes := [nodeAt "a" 602.0 400.0] }, by decide +kernel, by decide +kernel⟩

end Force

end CodeAtlas
