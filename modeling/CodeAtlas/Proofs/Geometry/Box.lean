import CodeAtlas.Geometry.Box
import Mathlib.Algebra.Order.Field.Rat
import Mathlib.Order.Bounds.Basic
import Mathlib.Tactic.Linarith

/-! Boxes over the rational numbers.

Without rounding the hull of some boxes is told by its four sides: each is the least or
the greatest of the sides of the boxes (`Box.hull?_eq_some_iff`), so it holds whatever these
hold (`Box.IsHull.holds`). The scale by which a box is fitted is the greatest one that is
not above the cap and keeps both extents within the room (`Box.isGreatest_fitScale`); an
extent of nothing sets no limit. -/
namespace CodeAtlas
open Scalar

variable {a b : Box ℚ} {boxes : List (Box ℚ)}

namespace Box

/-! ### Hulls -/

/-- The sides of a box are the outermost ones of some boxes. -/
structure IsHull (b : Box ℚ) (boxes : List (Box ℚ)) : Prop where
  minX : IsLeast {x | ∃ c ∈ boxes, c.minX = x} b.minX
  minY : IsLeast {y | ∃ c ∈ boxes, c.minY = y} b.minY
  maxX : IsGreatest {x | ∃ c ∈ boxes, c.maxX = x} b.maxX
  maxY : IsGreatest {y | ∃ c ∈ boxes, c.maxY = y} b.maxY

theorem IsHull.unique (h : a.IsHull boxes) (h' : b.IsHull boxes) : a = b := by
  obtain ⟨minX, minY, maxX, maxY⟩ := a
  obtain ⟨minX', minY', maxX', maxY'⟩ := b
  rw [Box.mk.injEq]
  exact ⟨h.minX.unique h'.minX, h.minY.unique h'.minY, h.maxX.unique h'.maxX, h.maxY.unique h'.maxY⟩

theorem least_eq_min (x y : ℚ) : least x y = min x y := by
  show (if y < x then y else x) = _
  grind

theorem greatest_eq_max (x y : ℚ) : greatest x y = max x y := by
  show (if x < y then y else x) = _
  grind

/-- A side that is folded with the lesser one is the least of all. -/
theorem isLeast_foldl (side : Box ℚ → ℚ) (hunion : ∀ a b : Box ℚ, side (a.union b) = min (side a) (side b)) (a : Box ℚ)
    (rest : List (Box ℚ)) : IsLeast {x | ∃ c ∈ a :: rest, side c = x} (side (rest.foldl union a)) := by
  have hfold : ((a :: rest).map side).min? = some (side (rest.foldl union a)) := by
    rw [List.map_cons, List.min?_cons', Option.some.injEq]
    induction rest generalizing a with
    | nil => rfl
    | cons b rest ih => rw [List.foldl_cons, ← ih, hunion]; rfl
  obtain ⟨hmem, hle⟩ := List.min?_eq_some_iff.mp hfold
  exact ⟨List.mem_map.mp hmem, fun x ⟨c, hc, hx⟩ => hx ▸ hle _ (List.mem_map_of_mem hc)⟩

theorem isGreatest_foldl (side : Box ℚ → ℚ) (hunion : ∀ a b : Box ℚ, side (a.union b) = max (side a) (side b)) (a : Box ℚ)
    (rest : List (Box ℚ)) : IsGreatest {x | ∃ c ∈ a :: rest, side c = x} (side (rest.foldl union a)) := by
  have hfold : ((a :: rest).map side).max? = some (side (rest.foldl union a)) := by
    rw [List.map_cons, List.max?_cons', Option.some.injEq]
    induction rest generalizing a with
    | nil => rfl
    | cons b rest ih => rw [List.foldl_cons, ← ih, hunion]; rfl
  obtain ⟨hmem, hle⟩ := List.max?_eq_some_iff.mp hfold
  exact ⟨List.mem_map.mp hmem, fun x ⟨c, hc, hx⟩ => hx ▸ hle _ (List.mem_map_of_mem hc)⟩

theorem hull?_eq_some_iff : hull? boxes = some b ↔ b.IsHull boxes := by
  have hhull (a : Box ℚ) (rest : List (Box ℚ)) : (rest.foldl union a).IsHull (a :: rest) :=
    ⟨isLeast_foldl minX (fun _ _ => least_eq_min _ _) a rest, isLeast_foldl minY (fun _ _ => least_eq_min _ _) a rest,
      isGreatest_foldl maxX (fun _ _ => greatest_eq_max _ _) a rest,
      isGreatest_foldl maxY (fun _ _ => greatest_eq_max _ _) a rest⟩
  cases boxes with
  | nil => exact ⟨fun h => (Option.some_ne_none _ h.symm).elim, fun h => by obtain ⟨_, hc, _⟩ := h.minX.1; cases hc⟩
  | cons a rest =>
    rw [hull?, Option.some.injEq]
    exact ⟨fun h => h ▸ hhull a rest, (hhull a rest).unique⟩

/-! ### Points -/

/-- The points of a box, its sides among them. -/
def Holds (b : Box ℚ) (p : Point ℚ) : Prop := (b.minX ≤ p.x ∧ p.x ≤ b.maxX) ∧ b.minY ≤ p.y ∧ p.y ≤ b.maxY

theorem IsHull.holds (h : a.IsHull boxes) (hb : b ∈ boxes) (hp : b.Holds p) : a.Holds p := by
  obtain ⟨⟨hleft, hright⟩, hbottom, htop⟩ := hp
  exact ⟨⟨(h.minX.2 ⟨b, hb, rfl⟩).trans hleft, hright.trans (h.maxX.2 ⟨b, hb, rfl⟩)⟩,
    (h.minY.2 ⟨b, hb, rfl⟩).trans hbottom, htop.trans (h.maxY.2 ⟨b, hb, rfl⟩)⟩

/-- No side lies beyond its opposite. -/
def IsUpright (b : Box ℚ) : Prop := b.minX ≤ b.maxX ∧ b.minY ≤ b.maxY

theorem isUpright_around (p : Point ℚ) {r : ℚ} (hr : 0 ≤ r) : (around p r).IsUpright := by
  constructor
  · show p.x - r ≤ p.x + r
    linarith
  · show p.y - r ≤ p.y + r
    linarith

theorem IsUpright.holds_low (h : b.IsUpright) : b.Holds ⟨b.minX, b.minY⟩ := ⟨⟨le_rfl, h.1⟩, le_rfl, h.2⟩

theorem IsUpright.holds_high (h : b.IsUpright) : b.Holds ⟨b.maxX, b.maxY⟩ := ⟨⟨h.1, le_rfl⟩, h.2, le_rfl⟩

theorem IsHull.isUpright (h : a.IsHull boxes) (hboxes : ∀ b ∈ boxes, b.IsUpright) : a.IsUpright := by
  obtain ⟨b, hb, -⟩ := h.minX.1
  obtain ⟨⟨hleft, hright⟩, hbottom, htop⟩ := h.holds hb (hboxes b hb).holds_low
  exact ⟨hleft.trans hright, hbottom.trans htop⟩

/-! ### Scales -/

/-- A scale keeps an extent within the room unless it is above the limit of this extent. -/
theorem mul_le_iff_axisScale? {content room k : ℚ} (hcontent : 0 ≤ content) (hroom : 0 ≤ room) :
    k * content ≤ room ↔ ∀ limit, axisScale? content room = some limit → k ≤ limit := by
  unfold axisScale?
  show _ ↔ ∀ limit, (if decide (0 < content) = true then some (room / content) else none) = some limit → k ≤ limit
  rcases hcontent.lt_or_eq with hpos | rfl
  · simp only [hpos, decide_true, if_true, Option.some.injEq, forall_eq', le_div_iff₀ hpos]
  · simpa using hroom

theorem isGreatest_fitScale {cap roomX roomY : ℚ} (b : Box ℚ) (hwidth : 0 ≤ b.width) (hheight : 0 ≤ b.height)
    (hroomX : 0 ≤ roomX) (hroomY : 0 ≤ roomY) :
    IsGreatest {k | k ≤ cap ∧ k * b.width ≤ roomX ∧ k * b.height ≤ roomY} (b.fitScale cap roomX roomY) := by
  have hiff (k : ℚ) : k ≤ b.fitScale cap roomX roomY ↔ k ≤ cap ∧ k * b.width ≤ roomX ∧ k * b.height ≤ roomY := by
    rw [mul_le_iff_axisScale? hwidth hroomX, mul_le_iff_axisScale? hheight hroomY, fitScale]
    cases axisScale? b.width roomX <;> cases axisScale? b.height roomY <;> simp [least_eq_min, and_assoc]
  exact ⟨(hiff _).mp le_rfl, fun k hk => (hiff k).mpr hk⟩

end Box

end CodeAtlas
