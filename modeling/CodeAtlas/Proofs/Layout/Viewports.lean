import CodeAtlas.Layout.Viewport
import CodeAtlas.Proofs.Layout.Fitting

/-! Viewports without rounding.

A viewport shows a box when it takes each of its points to one between the margins of the
window (`Viewport.Shows`). Whatever shows some boxes magnifies the box around them by no
more than the window has room for (`Viewport.mul_extent_le`). Conversely, what takes the
middle of a box to the middle of the window shows the box up to that magnification
(`Viewport.shows_centered`). So the viewport that is fitted to some nodes shows all of
them, as large as is allowed (`Viewport.fit_shows_all`), also when their box has no extent. -/
namespace CodeAtlas
open Scalar Box

/-- What the margins leave of a window. -/
def Frame.inner (f : Frame ℚ) : Box ℚ := ⟨f.padding, f.padding, f.width - f.padding, f.height - f.padding⟩

def Frame.middle (f : Frame ℚ) : Point ℚ := ⟨f.width / 2, f.height / 2⟩

namespace Viewport

variable {f : Frame ℚ} {b bounds : Box ℚ} {boxes : List (Box ℚ)} {v : Viewport ℚ} {k : ℚ}

/-- All points of a box are seen between the margins. -/
def Shows (v : Viewport ℚ) (f : Frame ℚ) (b : Box ℚ) : Prop := ∀ p, b.Holds p → f.inner.Holds (v.apply p)

theorem Shows.of_hull (h : v.Shows f bounds) (hhull : bounds.IsHull boxes) (hb : b ∈ boxes) : v.Shows f b :=
  fun p hp => h p (hhull.holds hb hp)

/-! ### The greatest magnification -/

/-- Two points that are seen between the margins are not further apart than these. -/
theorem mul_sub_le {low high offset first last : ℚ} (hlow : first ≤ low * k + offset)
    (hhigh : high * k + offset ≤ last) : k * (high - low) ≤ last - first := by
  linarith

/-- The box around some boxes reaches from one of them to another, and both are seen. -/
theorem mul_extent_le (hhull : bounds.IsHull boxes) (hboxes : ∀ b ∈ boxes, b.IsUpright)
    (hshows : ∀ b ∈ boxes, v.Shows f b) :
    v.scale * bounds.width ≤ f.width - 2 * f.padding ∧ v.scale * bounds.height ≤ f.height - 2 * f.padding := by
  have hlow {b : Box ℚ} (hb : b ∈ boxes) := hshows b hb _ (hboxes b hb).holds_low
  have hhigh {b : Box ℚ} (hb : b ∈ boxes) := hshows b hb _ (hboxes b hb).holds_high
  obtain ⟨left, hleft, hminX⟩ := hhull.minX.1
  obtain ⟨right, hright, hmaxX⟩ := hhull.maxX.1
  obtain ⟨bottom, hbottom, hminY⟩ := hhull.minY.1
  obtain ⟨top, htop, hmaxY⟩ := hhull.maxY.1
  rw [width, height, ← hminX, ← hmaxX, ← hminY, ← hmaxY]
  constructor
  · refine (mul_sub_le (hlow hleft).1.1 (hhigh hright).1.2).trans_eq ?_
    show f.width - f.padding - f.padding = _
    ring
  · refine (mul_sub_le (hlow hbottom).2.1 (hhigh htop).2.2).trans_eq ?_
    show f.height - f.padding - f.padding = _
    ring

/-! ### Middle to middle -/

theorem apply_centered (m p : Point ℚ) (k extentX extentY : ℚ) : (centered m k extentX extentY).apply p =
    ⟨(p.x - m.x) * k + extentX / 2, (p.y - m.y) * k + extentY / 2⟩ := by
  rw [apply, centered, Point.mk.injEq, half_eq, half_eq]
  constructor <;> ring

theorem apply_middle (f : Frame ℚ) (m : Point ℚ) (k : ℚ) : (centered m k f.width f.height).apply m = f.middle := by
  rw [apply_centered, Frame.middle, sub_self, sub_self, zero_mul, zero_add, zero_add]

theorem shows_centered (hk : 0 ≤ k) (hwidth : k * b.width ≤ f.width - 2 * f.padding)
    (hheight : k * b.height ≤ f.height - 2 * f.padding) : (centered b.center k f.width f.height).Shows f b := by
  rintro p ⟨⟨hleft, hright⟩, hbottom, htop⟩
  rw [apply_centered]
  exact ⟨Frame.fitted_within hk hwidth hleft hright, Frame.fitted_within hk hheight hbottom htop⟩

/-! ### Fitting -/

theorem roomIn_eq {extent : ℚ} (h : 2 * f.padding + 1 ≤ extent) : roomIn f extent = extent - 2 * f.padding := by
  rw [roomIn, greatest_eq_max]
  exact max_eq_left (le_sub_iff_add_le'.mpr h)

theorem fit_eq (hhull : bounds.IsHull boxes) : fit f boxes = fitBox f bounds := by
  rw [fit, hull?_eq_some_iff.mpr hhull]

theorem isGreatest_scale_fitBox (hb : b.IsUpright) (hwidth : 2 * f.padding + 1 ≤ f.width)
    (hheight : 2 * f.padding + 1 ≤ f.height) : IsGreatest
      {k | k ≤ 2 ∧ k * b.width ≤ f.width - 2 * f.padding ∧ k * b.height ≤ f.height - 2 * f.padding}
      (fitBox f b).scale := by
  have hroomX : 0 ≤ f.width - 2 * f.padding := by linarith
  have hroomY : 0 ≤ f.height - 2 * f.padding := by linarith
  rw [fitBox, centered, roomIn_eq hwidth, roomIn_eq hheight]
  exact isGreatest_fitScale b (sub_nonneg.mpr hb.1) (sub_nonneg.mpr hb.2) hroomX hroomY

/-- The viewport that is fitted to some nodes, each a square around its place, shows all of
them between the margins and takes the middle of the box around them to the middle of the
window. Of all viewports that do so and magnify at most twice, none magnifies more. -/
theorem fit_shows_all (f : Frame ℚ) (nodes : List (Point ℚ × ℚ)) (hne : nodes ≠ []) (hsizes : ∀ n ∈ nodes, 0 ≤ n.2)
    (hwidth : 2 * f.padding + 1 ≤ f.width) (hheight : 2 * f.padding + 1 ≤ f.height) :
    let boxes := nodes.map fun n => Box.around n.1 n.2
    ∃ bounds : Box ℚ, bounds.IsHull boxes ∧ (∀ b ∈ boxes, (fit f boxes).Shows f b) ∧
      (fit f boxes).apply bounds.center = f.middle ∧
      IsGreatest {k | k ≤ 2 ∧ ∃ v : Viewport ℚ, v.scale = k ∧ v.apply bounds.center = f.middle ∧
        ∀ b ∈ boxes, v.Shows f b} (fit f boxes).scale := by
  intro boxes
  have hboxes : ∀ b ∈ boxes, b.IsUpright := by
    intro b hb
    obtain ⟨n, hn, rfl⟩ := List.mem_map.mp hb
    exact isUpright_around n.1 (hsizes n hn)
  obtain ⟨bounds, hbounds⟩ : ∃ bounds, hull? boxes = some bounds := by
    obtain ⟨n, rest, rfl⟩ := List.exists_cons_of_ne_nil hne
    exact ⟨_, rfl⟩
  have hhull := hull?_eq_some_iff.mp hbounds
  have hgreatest := isGreatest_scale_fitBox (hhull.isUpright hboxes) hwidth hheight
  obtain ⟨hcap, hfitsX, hfitsY⟩ := hgreatest.1
  have hnonneg : 0 ≤ (fitBox f bounds).scale := hgreatest.2 ⟨by norm_num, by linarith, by linarith⟩
  have hshows : ∀ b ∈ boxes, (fitBox f bounds).Shows f b := fun b hb =>
    (shows_centered hnonneg hfitsX hfitsY).of_hull hhull hb
  have hmiddle : (fitBox f bounds).apply bounds.center = f.middle := apply_middle f bounds.center _
  rw [fit_eq hhull]
  refine ⟨bounds, hhull, hshows, hmiddle, ⟨hcap, fitBox f bounds, rfl, hmiddle, hshows⟩, ?_⟩
  rintro k ⟨hk, v, rfl, -, hv⟩
  exact hgreatest.2 ⟨hk, mul_extent_le hhull hboxes hv⟩

/-- Two nodes of size 10 fill the width of a window. -/
theorem fit_shows_two :
    let f : Frame ℚ := ⟨560, 440, 20⟩
    let nodes : List (Point ℚ × ℚ) := [(⟨0, 0⟩, 10), (⟨1000, 500⟩, 10)]
    let boxes := nodes.map fun n => Box.around n.1 n.2
    nodes ≠ [] ∧ (∀ n ∈ nodes, 0 ≤ n.2) ∧ 2 * f.padding + 1 ≤ f.width ∧ 2 * f.padding + 1 ≤ f.height ∧
      (fit f boxes).scale = 520 / 1020 ∧ ∀ b ∈ boxes, (fit f boxes).Shows f b := by
  intro f nodes boxes
  have hne : nodes ≠ [] := List.cons_ne_nil _ _
  have hsizes : ∀ n ∈ nodes, 0 ≤ n.2 := by decide +kernel
  have hwidth : 2 * f.padding + 1 ≤ f.width := by decide +kernel
  have hheight : 2 * f.padding + 1 ≤ f.height := by decide +kernel
  obtain ⟨-, -, hshows, -⟩ := fit_shows_all f nodes hne hsizes hwidth hheight
  exact ⟨hne, hsizes, hwidth, hheight, by decide +kernel, hshows⟩

end Viewport

end CodeAtlas
