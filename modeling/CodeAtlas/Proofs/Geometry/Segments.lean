import CodeAtlas.Geometry.Crossing
import Mathlib.Algebra.Order.Field.Basic
import Mathlib.Algebra.Order.Field.Rat
import Mathlib.Tactic.FieldSimp
import Mathlib.Tactic.Linarith
import Mathlib.Tactic.LinearCombination
import Mathlib.Tactic.Ring

/-! Segments without rounding.

That the ends of each of two segments lie on different sides of the other says the same as
that the segments have different directions and a point in common that is inside of both
(`Segment.crosses_iff`). The orientation changes evenly along a segment, so it has opposite
signs at the ends where it is zero at a point inside (`mul_sub_neg_iff`), and two lines of
different directions meet where it is zero along both (`Segment.along_eq_along_iff`). -/
namespace CodeAtlas
open Scalar

namespace Segment

variable {s t : Segment ℚ} {r u : ℚ}

def dx (s : Segment ℚ) : ℚ := s.stop.x - s.start.x

def dy (s : Segment ℚ) : ℚ := s.stop.y - s.start.y

def reverse (s : Segment ℚ) : Segment ℚ := ⟨s.stop, s.start⟩

/-- The point at a fraction of the way from the start. -/
def along (s : Segment ℚ) (r : ℚ) : Point ℚ := ⟨s.start.x + r * s.dx, s.start.y + r * s.dy⟩

/-- The points strictly between the ends. -/
def Inside (s : Segment ℚ) (p : Point ℚ) : Prop := ∃ r, 0 < r ∧ r < 1 ∧ s.along r = p

def IsParallel (s t : Segment ℚ) : Prop := ∃ k, t.dx = k * s.dx ∧ t.dy = k * s.dy

/-- Two segments of different directions have a point inside of both. -/
structure MeetsInside (s t : Segment ℚ) : Prop where
  start_ne_stop : s.start ≠ s.stop
  start_ne_stop' : t.start ≠ t.stop
  not_isParallel : ¬s.IsParallel t
  common : ∃ p, s.Inside p ∧ t.Inside p

/-! ### Directions -/

/-- The area that two directions span; its sign tells to which side the second one turns. -/
def turn (s t : Segment ℚ) : ℚ := s.dx * t.dy - s.dy * t.dx

theorem turn_swap (s t : Segment ℚ) : t.turn s = -s.turn t := by
  rw [turn, turn]
  ring

theorem start_ne_stop_iff : s.start ≠ s.stop ↔ s.dx ≠ 0 ∨ s.dy ≠ 0 := by
  obtain ⟨⟨x, y⟩, ⟨x', y'⟩⟩ := s
  simp only [dx, dy, ne_eq, Point.mk.injEq, sub_eq_zero, ← not_and_or, eq_comm]

theorem turn_ne_zero_iff : s.turn t ≠ 0 ↔ s.start ≠ s.stop ∧ t.start ≠ t.stop ∧ ¬s.IsParallel t := by
  rw [start_ne_stop_iff, start_ne_stop_iff, turn]
  constructor
  · intro h
    refine ⟨?_, ?_, ?_⟩
    · by_contra! hs
      rw [hs.1, hs.2, zero_mul, zero_mul, sub_zero] at h
      exact h rfl
    · by_contra! ht
      rw [ht.1, ht.2, mul_zero, mul_zero, sub_zero] at h
      exact h rfl
    · rintro ⟨k, hx, hy⟩
      rw [hx, hy] at h
      exact h (by ring)
  · rintro ⟨hs, -, hparallel⟩ hturn
    refine hparallel ?_
    -- an axis along which the first segment extends tells the factor
    rcases hs with hx | hy
    · exact ⟨t.dx / s.dx, by field_simp, by field_simp; linear_combination hturn⟩
    · exact ⟨t.dy / s.dy, by field_simp; linear_combination -hturn, by field_simp⟩

theorem meetsInside_iff : s.MeetsInside t ↔ s.turn t ≠ 0 ∧ ∃ p, s.Inside p ∧ t.Inside p := by
  rw [turn_ne_zero_iff]
  exact ⟨fun ⟨hs, ht, hparallel, hp⟩ => ⟨⟨hs, ht, hparallel⟩, hp⟩, fun ⟨⟨hs, ht, hparallel⟩, hp⟩ =>
    ⟨hs, ht, hparallel, hp⟩⟩

theorem MeetsInside.symm (h : s.MeetsInside t) : t.MeetsInside s := by
  rw [meetsInside_iff] at h ⊢
  obtain ⟨hturn, p, hs, ht⟩ := h
  exact ⟨by rwa [turn_swap, neg_ne_zero], p, ht, hs⟩

theorem Inside.reverse {p : Point ℚ} (h : s.Inside p) : s.reverse.Inside p := by
  obtain ⟨r, hpos, hlt, rfl⟩ := h
  refine ⟨1 - r, sub_pos.mpr hlt, sub_lt_self 1 hpos, ?_⟩
  simp only [along, Segment.reverse, dx, dy, Point.mk.injEq]
  constructor <;> ring

theorem MeetsInside.reverse (h : s.MeetsInside t) : s.reverse.MeetsInside t := by
  rw [meetsInside_iff] at h ⊢
  obtain ⟨hturn, p, hs, ht⟩ := h
  have hopposite : s.reverse.turn t = -s.turn t := by
    simp only [turn, Segment.reverse, dx, dy]
    ring
  exact ⟨by rwa [hopposite, neg_ne_zero], p, hs.reverse, ht⟩

/-! ### Sides -/

theorem areOpposite_iff {a b : ℚ} : areOpposite a b = true ↔ a * b < 0 := decide_eq_true_iff

/-- What changes evenly from `a` to `a - c` changes its sign on the way. -/
theorem mul_sub_neg_iff {a c : ℚ} : a * (a - c) < 0 ↔ c ≠ 0 ∧ ∃ r, 0 < r ∧ r < 1 ∧ a = r * c := by
  constructor
  · intro h
    have hc : c ≠ 0 := by
      rintro rfl
      rw [sub_zero] at h
      exact (mul_self_nonneg a).not_gt h
    refine ⟨hc, a / c, ?_, ?_, (div_mul_cancel₀ a hc).symm⟩
    · rw [div_pos_iff, ← mul_pos_iff]
      linarith [mul_self_nonneg a]
    · rw [← sub_pos, one_sub_div hc, div_pos_iff, ← mul_pos_iff]
      linarith [mul_self_nonneg (c - a)]
  · rintro ⟨hc, r, hpos, hlt, rfl⟩
    have hsq : 0 < c * c := mul_self_pos.mpr hc
    calc r * c * (r * c - c) = -(r * (1 - r) * (c * c)) := by ring
      _ < 0 := neg_lt_zero.mpr (mul_pos (mul_pos hpos (sub_pos.mpr hlt)) hsq)

theorem orientation_eq (s : Segment ℚ) (p : Point ℚ) :
    orientation s.start s.stop p = s.dx * (p.y - s.start.y) - s.dy * (p.x - s.start.x) := rfl

theorem orientation_stop (s t : Segment ℚ) :
    orientation t.start t.stop s.stop = orientation t.start t.stop s.start - s.turn t := by
  simp only [orientation_eq, turn, dx, dy]
  ring

/-- Two lines of different directions have a point in common: on the way along each it is
where the orientation towards the other becomes zero. -/
theorem along_eq_along_iff (h : s.turn t ≠ 0) : s.along r = t.along u ↔
    orientation t.start t.stop s.start = r * s.turn t ∧ orientation s.start s.stop t.start = u * t.turn s := by
  rw [orientation_eq, orientation_eq, along, along, Point.mk.injEq, turn, turn]
  rw [turn] at h
  constructor
  · rintro ⟨hx, hy⟩
    constructor
    · linear_combination t.dx * hy - t.dy * hx
    · linear_combination s.dy * hx - s.dx * hy
  · rintro ⟨hs, ht⟩
    constructor
    · refine mul_right_cancel₀ h ?_
      linear_combination -s.dx * hs - t.dx * ht
    · refine mul_right_cancel₀ h ?_
      linear_combination -s.dy * hs - t.dy * ht

theorem crosses_iff : s.crosses t = true ↔ s.MeetsInside t := by
  rw [crosses, Bool.and_eq_true, areOpposite_iff, areOpposite_iff, orientation_stop s t, orientation_stop t s,
    mul_sub_neg_iff, mul_sub_neg_iff, meetsInside_iff]
  constructor
  · rintro ⟨⟨hturn, r, hr, hr', hs⟩, -, u, hu, hu', ht⟩
    exact ⟨hturn, s.along r, ⟨r, hr, hr', rfl⟩, u, hu, hu', ((along_eq_along_iff hturn).mpr ⟨hs, ht⟩).symm⟩
  · rintro ⟨hturn, p, ⟨r, hr, hr', rfl⟩, u, hu, hu', hmeet⟩
    obtain ⟨hs, ht⟩ := (along_eq_along_iff hturn).mp hmeet.symm
    exact ⟨⟨hturn, r, hr, hr', hs⟩, by rwa [turn_swap, neg_ne_zero], u, hu, hu', ht⟩

end Segment

end CodeAtlas
