import CodeAtlas.Layout.Normalization
import CodeAtlas.Proofs.Geometry.Box
import Mathlib.Tactic.Ring

/-! Fitting without rounding.

Over the rational numbers points are moved into their canvas by one map, which scales
both axes alike and takes the middle of their box to the middle of the canvas. The scale
is the greatest one up to two at which the box fits between the margins, so all points
come to lie there (`Frame.placeAll_fits`), also when they coincide, lie on a line, or the
margins leave nothing free. -/
namespace CodeAtlas
open Scalar Box

theorem half_eq (x : ℚ) : half x = x / 2 := rfl

namespace Box

variable {b : Box ℚ} {points : List (Point ℚ)}

theorem IsHull.mem_points (h : b.IsHull (points.map ofPoint)) {p : Point ℚ} (hp : p ∈ points) :
    b.minX ≤ p.x ∧ p.x ≤ b.maxX ∧ b.minY ≤ p.y ∧ p.y ≤ b.maxY := by
  have hmem : ofPoint p ∈ points.map ofPoint := List.mem_map_of_mem hp
  exact ⟨h.minX.2 ⟨_, hmem, rfl⟩, h.maxX.2 ⟨_, hmem, rfl⟩, h.minY.2 ⟨_, hmem, rfl⟩, h.maxY.2 ⟨_, hmem, rfl⟩⟩

theorem sides_map (k : ℚ → ℚ) (side : Box ℚ → ℚ) (move : Point ℚ → Point ℚ)
    (hmove : ∀ p, side (ofPoint (move p)) = k (side (ofPoint p))) :
    {x | ∃ c ∈ (points.map move).map ofPoint, side c = x} = k '' {x | ∃ c ∈ points.map ofPoint, side c = x} := by
  ext x
  simp [hmove]

/-- A map that keeps the order on each axis takes the box of some points to the box of
what becomes of them. -/
theorem IsHull.map {f g : ℚ → ℚ} (hf : Monotone f) (hg : Monotone g) (h : b.IsHull (points.map ofPoint)) :
    (⟨f b.minX, g b.minY, f b.maxX, g b.maxY⟩ : Box ℚ).IsHull ((points.map fun p => ⟨f p.x, g p.y⟩).map ofPoint) where
  minX := sides_map f Box.minX (fun p => ⟨f p.x, g p.y⟩) (fun _ => rfl) ▸ hf.map_isLeast h.minX
  minY := sides_map g Box.minY (fun p => ⟨f p.x, g p.y⟩) (fun _ => rfl) ▸ hg.map_isLeast h.minY
  maxX := sides_map f Box.maxX (fun p => ⟨f p.x, g p.y⟩) (fun _ => rfl) ▸ hf.map_isGreatest h.maxX
  maxY := sides_map g Box.maxY (fun p => ⟨f p.x, g p.y⟩) (fun _ => rfl) ▸ hg.map_isGreatest h.maxY

end Box

namespace Frame

variable {f : Frame ℚ} {b : Box ℚ}

theorem place_eq (f : Frame ℚ) (b : Box ℚ) (p : Point ℚ) :
    f.place b p = ⟨(p.x - (b.minX + b.maxX) / 2) * f.scale b + f.width / 2,
      (p.y - (b.minY + b.maxY) / 2) * f.scale b + f.height / 2⟩ := rfl

theorem room_eq {extent : ℚ} (h : 2 * f.padding ≤ extent) : f.room extent = extent - 2 * f.padding := by
  rw [room, greatest_eq_max]
  exact max_eq_left (sub_nonneg.mpr h)

/-- A point between two sides comes to lie between the margins. -/
theorem fitted_within {low high x k extent padding : ℚ} (hk : 0 ≤ k) (hfits : k * (high - low) ≤ extent - 2 * padding)
    (hlow : low ≤ x) (hhigh : x ≤ high) :
    padding ≤ (x - (low + high) / 2) * k + extent / 2 ∧ (x - (low + high) / 2) * k + extent / 2 ≤ extent - padding := by
  have hleft : 0 ≤ (x - low) * k := mul_nonneg (sub_nonneg.mpr hlow) hk
  have hright : 0 ≤ (high - x) * k := mul_nonneg (sub_nonneg.mpr hhigh) hk
  constructor <;> linarith

theorem placeAll_eq {points : List (Point ℚ)} (h : hull? (points.map ofPoint) = some b) :
    f.placeAll points = points.map (f.place b) := by
  rw [placeAll, h]

theorem isGreatest_scale (hwidth : 2 * f.padding ≤ f.width) (hheight : 2 * f.padding ≤ f.height) (hx : b.minX ≤ b.maxX)
    (hy : b.minY ≤ b.maxY) : IsGreatest
      {k | k ≤ 2 ∧ k * b.width ≤ f.width - 2 * f.padding ∧ k * b.height ≤ f.height - 2 * f.padding} (f.scale b) := by
  rw [scale, room_eq hwidth, room_eq hheight]
  exact isGreatest_fitScale b (sub_nonneg.mpr hx) (sub_nonneg.mpr hy) (sub_nonneg.mpr hwidth) (sub_nonneg.mpr hheight)

theorem scale_nonneg (hwidth : 2 * f.padding ≤ f.width) (hheight : 2 * f.padding ≤ f.height) (hx : b.minX ≤ b.maxX)
    (hy : b.minY ≤ b.maxY) : 0 ≤ f.scale b := by
  refine (isGreatest_scale hwidth hheight hx hy).2 ⟨by norm_num, ?_, ?_⟩
  · rw [zero_mul]
    exact sub_nonneg.mpr hwidth
  · rw [zero_mul]
    exact sub_nonneg.mpr hheight

/-- Where the box itself comes to lie. -/
def placeBox (f : Frame ℚ) (b : Box ℚ) : Box ℚ :=
  let low := f.place b ⟨b.minX, b.minY⟩
  let high := f.place b ⟨b.maxX, b.maxY⟩
  ⟨low.x, low.y, high.x, high.y⟩

theorem center_placeBox (f : Frame ℚ) (b : Box ℚ) : (f.placeBox b).center = ⟨f.width / 2, f.height / 2⟩ := by
  rw [center, half_eq, half_eq, Point.mk.injEq, placeBox, place_eq, place_eq]
  constructor
  · show ((b.minX - (b.minX + b.maxX) / 2) * f.scale b + f.width / 2 +
      ((b.maxX - (b.minX + b.maxX) / 2) * f.scale b + f.width / 2)) / 2 = f.width / 2
    ring
  · show ((b.minY - (b.minY + b.maxY) / 2) * f.scale b + f.height / 2 +
      ((b.maxY - (b.minY + b.maxY) / 2) * f.scale b + f.height / 2)) / 2 = f.height / 2
    ring

theorem isHull_placeBox {points : List (Point ℚ)} (h : b.IsHull (points.map ofPoint)) (hscale : 0 ≤ f.scale b) :
    (f.placeBox b).IsHull ((points.map (f.place b)).map ofPoint) := by
  have hmono (middle extent : ℚ) : Monotone fun x => (x - middle) * f.scale b + extent / 2 := fun x y hxy =>
    add_le_add_left (mul_le_mul_of_nonneg_right (sub_le_sub_right hxy middle) hscale) _
  exact h.map (hmono ((b.minX + b.maxX) / 2) f.width) (hmono ((b.minY + b.maxY) / 2) f.height)

/-- Points are moved into their canvas by one map, which scales both axes alike, by at most
two and by as much as the margins allow. All of them come to lie between the margins, and
the middle of their box in the middle of the canvas. -/
theorem placeAll_fits (f : Frame ℚ) (points : List (Point ℚ)) (hne : points ≠ []) (hwidth : 2 * f.padding ≤ f.width)
    (hheight : 2 * f.padding ≤ f.height) :
    ∃ (b : Box ℚ) (k : ℚ), b.IsHull (points.map ofPoint) ∧ 0 ≤ k ∧ k ≤ 2 ∧
      IsGreatest {k | k ≤ 2 ∧ k * b.width ≤ f.width - 2 * f.padding ∧ k * b.height ≤ f.height - 2 * f.padding} k ∧
      f.placeAll points = (points.map fun p =>
        ⟨(p.x - b.center.x) * k + f.width / 2, (p.y - b.center.y) * k + f.height / 2⟩) ∧
      (∀ p ∈ f.placeAll points, f.padding ≤ p.x ∧ p.x ≤ f.width - f.padding ∧
        f.padding ≤ p.y ∧ p.y ≤ f.height - f.padding) ∧
      ∃ moved : Box ℚ, moved.IsHull ((f.placeAll points).map ofPoint) ∧ moved.center = ⟨f.width / 2, f.height / 2⟩ := by
  obtain ⟨p, rest, rfl⟩ := List.exists_cons_of_ne_nil hne
  obtain ⟨b, hb⟩ : ∃ b, hull? ((p :: rest).map ofPoint) = some b := ⟨_, rfl⟩
  have hhull := hull?_eq_some_iff.mp hb
  obtain ⟨hleft, hright, hbottom, htop⟩ := hhull.mem_points List.mem_cons_self
  have hgreatest := isGreatest_scale hwidth hheight (hleft.trans hright) (hbottom.trans htop)
  have hnonneg := scale_nonneg hwidth hheight (hleft.trans hright) (hbottom.trans htop)
  obtain ⟨hcap, hfitsX, hfitsY⟩ := hgreatest.1
  rw [placeAll_eq hb]
  refine ⟨b, f.scale b, hhull, hnonneg, hcap, hgreatest, rfl, fun q hq => ?_, f.placeBox b,
    isHull_placeBox hhull hnonneg, center_placeBox f b⟩
  obtain ⟨m, hm, rfl⟩ := List.mem_map.mp hq
  obtain ⟨hleft, hright, hbottom, htop⟩ := hhull.mem_points hm
  obtain ⟨hx, hx'⟩ := fitted_within hnonneg hfitsX hleft hright
  obtain ⟨hy, hy'⟩ := fitted_within hnonneg hfitsY hbottom htop
  exact ⟨hx, hx', hy, hy'⟩

/-- Three points on a line are moved to the margins. -/
theorem line_fits :
    let f : Frame ℚ := ⟨400, 300, 50⟩
    let points : List (Point ℚ) := [⟨0, 10⟩, ⟨1200, 10⟩, ⟨300, 10⟩]
    points ≠ [] ∧ 2 * f.padding ≤ f.width ∧ 2 * f.padding ≤ f.height ∧
      f.placeAll points = [⟨50, 150⟩, ⟨350, 150⟩, ⟨125, 150⟩] ∧
      ∀ p ∈ f.placeAll points, f.padding ≤ p.x ∧ p.x ≤ f.width - f.padding ∧
        f.padding ≤ p.y ∧ p.y ≤ f.height - f.padding := by
  intro f points
  have hne : points ≠ [] := List.cons_ne_nil _ _
  have hwidth : 2 * f.padding ≤ f.width := by decide +kernel
  have hheight : 2 * f.padding ≤ f.height := by decide +kernel
  obtain ⟨-, -, -, -, -, -, -, hwithin, -⟩ := placeAll_fits f points hne hwidth hheight
  exact ⟨hne, hwidth, hheight, by decide +kernel, hwithin⟩

end Frame

end CodeAtlas
