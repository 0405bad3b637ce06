import Mathlib

/-! Rounding to binary64, measured on exact numbers.

The numbers of the format form a grid on the rationals: a mantissa of 53 bits times
a power of two, the exponents bounded below and, until a result is packed, not
above. Arithmetic truncates an exact result to a mantissa and two residual bits and
then decides between it and its successor. The residual bits tell on which side of the
middle of the two the exact number lies (`Residue`), so the one that is taken is the
nearest, and no number of the grid is nearer than it (`Nearest`). An exact result may be
irrational, so it is a real number.

Of two exact results the greater is not rounded to less (`Nearest.mono`), and rounding
crosses no number of the grid: an exact result that is at most some number of the format is
rounded to at most that number, and the same from below (`Rounded`). That is all a bound
needs. -/
namespace CodeAtlas.Binary64
open Float.Model (Format UnpackedFloat totalExponent)
open Float.Model.UnpackedFloat

/-! ### The grid -/

/-- A mantissa and an exponent in the one form in which they are stored. -/
structure Digits (m : ℕ) (e : ℤ) : Prop where
  short : m < 2 ^ 53
  low : -1074 ≤ e
  full : 2 ^ 52 ≤ m ∨ e = -1074

/-- A number of the format, if its exponents were unbounded above. -/
def OnGrid (q : ℚ) : Prop := ∃ m e, Digits m e ∧ |q| = m * 2 ^ e

theorem two_zpow_pos (e : ℤ) : (0 : ℚ) < 2 ^ e := zpow_pos (by norm_num) e

theorem two_zpow_add (a b : ℤ) : (2 : ℚ) ^ (a + b) = 2 ^ a * 2 ^ b := zpow_add₀ (by norm_num) a b

theorem OnGrid.neg {q : ℚ} (h : OnGrid q) : OnGrid (-q) := by
  simpa [OnGrid] using h

theorem OnGrid.abs {q : ℚ} (h : OnGrid q) : OnGrid |q| := by
  simpa [OnGrid] using h

theorem Digits.onGrid {m : ℕ} {e : ℤ} (h : Digits m e) : OnGrid (m * 2 ^ e) :=
  ⟨m, e, h, abs_of_nonneg (by have := two_zpow_pos e; positivity)⟩

theorem onGrid_zero : OnGrid 0 := ⟨0, -1074, ⟨by norm_num, by norm_num, .inr rfl⟩, by simp⟩

theorem natCast_two_pow_mul (n : ℕ) (e : ℤ) : ((2 ^ n : ℕ) : ℚ) * 2 ^ e = 2 ^ (n + e : ℤ) := by
  rw [Nat.cast_pow, Nat.cast_ofNat, ← zpow_natCast, two_zpow_add]

/-- A mantissa of up to 53 bits may be given in any form. -/
theorem onGrid_mul_two_zpow {m : ℕ} {e : ℤ} (short : m < 2 ^ 53) (low : -1074 ≤ e) : OnGrid (m * 2 ^ e) := by
  -- the mantissa is doubled until it is full or the exponent is the least one
  obtain ⟨n, hn⟩ := Int.eq_ofNat_of_zero_le (show 0 ≤ e + 1074 by omega)
  induction n generalizing m e with
  | zero => exact Digits.onGrid ⟨short, low, .inr (by omega)⟩
  | succ n ih =>
    obtain full | small := le_or_gt (2 ^ 52) m
    · exact Digits.onGrid ⟨short, low, .inl full⟩
    · have doubled : (m : ℚ) * 2 ^ e = (2 * m : ℕ) * 2 ^ (e - 1) := by
        rw [show e = 1 + (e - 1) by omega, two_zpow_add, show 1 + (e - 1) - 1 = e - 1 by omega]
        push_cast
        ring
      rw [doubled]
      exact ih (by omega) (by omega) (by omega)

theorem onGrid_two_zpow {k : ℤ} (hk : -1074 ≤ k) : OnGrid (2 ^ k) := by
  simpa using onGrid_mul_two_zpow (m := 1) (by norm_num) hk

/-- A number of the grid is a whole number of units of any lower exponent. -/
theorem units_of_le {m : ℕ} {e t : ℤ} (h : t ≤ e) : ∃ k : ℕ, (m : ℚ) * 2 ^ e = k * 2 ^ t := by
  obtain ⟨n, hn⟩ := Int.eq_ofNat_of_zero_le (sub_nonneg.2 h)
  refine ⟨m * 2 ^ n, ?_⟩
  rw [Nat.cast_mul, mul_assoc, natCast_two_pow_mul, ← hn]
  congr 2
  omega

theorem OnGrid.double {q : ℚ} (h : OnGrid q) : OnGrid (2 * q) := by
  obtain ⟨m, e, d, hq⟩ := h
  have scaled : |2 * q| = 2 * m * 2 ^ e := by rw [abs_mul, hq, abs_of_pos two_pos]; ring
  obtain full | low := le_or_gt (2 ^ 52) m
  · refine ⟨m, e + 1, ⟨d.short, by have := d.low; omega, .inl full⟩, ?_⟩
    rw [scaled, two_zpow_add]
    ring
  · have he : e = -1074 := d.full.resolve_left (by omega)
    exact ⟨2 * m, e, ⟨by omega, d.low, .inr he⟩, by push_cast; exact scaled⟩

/-- So may one that has just the next bit, and either sign. -/
theorem onGrid_intCast_mul {z : ℤ} {e : ℤ} (within : |z| ≤ 2 ^ 53) (low : -1074 ≤ e) : OnGrid (z * 2 ^ e) := by
  have size : OnGrid ((z.natAbs : ℚ) * 2 ^ e) := by
    obtain short | carried := (show z.natAbs ≤ 2 ^ 53 by have := abs_le.mp within; omega).lt_or_eq
    · exact onGrid_mul_two_zpow short low
    · have doubled := (onGrid_mul_two_zpow (m := 2 ^ 52) (by norm_num) low).double
      rw [carried]
      convert doubled using 1
      push_cast
      ring
  have abs_eq : |(z : ℚ) * 2 ^ e| = |(z.natAbs : ℚ) * 2 ^ e| := by
    rw [abs_mul, abs_mul, Nat.cast_natAbs, Int.cast_abs, abs_abs]
  rwa [OnGrid, abs_eq]

/-- On both sides of a number within a power of two there is one of the grid, not further apart
than the last of 53 bits can tell. -/
theorem exists_grid_around {q : ℚ} {k : ℤ} (low : -1021 ≤ k) (hq : |q| ≤ 2 ^ k) :
    ∃ a b, OnGrid a ∧ OnGrid b ∧ |a| ≤ 2 ^ k ∧ |b| ≤ 2 ^ k ∧ a ≤ q ∧ q ≤ b ∧ b ≤ a + 2 ^ (k - 53) := by
  have unit_pos := two_zpow_pos (k - 53)
  have power : (2 : ℚ) ^ k = 2 ^ 53 * 2 ^ (k - 53) := by
    rw [← zpow_natCast, ← two_zpow_add]
    congr 1
    omega
  have grid {z : ℤ} (hz : |z| ≤ 2 ^ 53) : OnGrid (z * 2 ^ (k - 53)) := onGrid_intCast_mul hz (by omega)
  have within {z : ℤ} (hz : |z| ≤ 2 ^ 53) : |(z : ℚ) * 2 ^ (k - 53)| ≤ 2 ^ k := by
    rw [abs_mul, abs_of_pos unit_pos, power]
    exact mul_le_mul_of_nonneg_right (by exact_mod_cast hz) unit_pos.le
  rw [abs_le, power] at hq
  generalize (2 : ℚ) ^ (k - 53) = unit at *
  have floor_ge : -2 ^ 53 ≤ ⌊q / unit⌋ := Int.le_floor.2 ((le_div_iff₀ unit_pos).2 (by push_cast; linarith [hq.1]))
  have ceil_le : ⌈q / unit⌉ ≤ 2 ^ 53 := Int.ceil_le.2 ((div_le_iff₀ unit_pos).2 (by push_cast; exact hq.2))
  have order := Int.floor_le_ceil (q / unit)
  have below : |⌊q / unit⌋| ≤ 2 ^ 53 := abs_le.2 ⟨floor_ge, order.trans ceil_le⟩
  have above : |⌈q / unit⌉| ≤ 2 ^ 53 := abs_le.2 ⟨floor_ge.trans order, ceil_le⟩
  have next : (⌈q / unit⌉ : ℚ) ≤ ⌊q / unit⌋ + 1 := by exact_mod_cast Int.ceil_le_floor_add_one (q / unit)
  refine ⟨_, _, grid below, grid above, within below, within above, ?_, ?_, ?_⟩
  · exact (le_div_iff₀ unit_pos).1 (Int.floor_le _)
  · exact (div_le_iff₀ unit_pos).1 (Int.le_ceil _)
  · nlinarith

/-- The smallest number above zero. -/
@[irreducible] def smallest : ℚ := 2 ^ (-1074 : ℤ)

theorem smallest_eq : smallest = 2 ^ (-1074 : ℤ) := by unfold smallest; rfl

theorem smallest_pos : 0 < smallest := smallest_eq ▸ two_zpow_pos (-1074)

theorem onGrid_smallest : OnGrid smallest := smallest_eq ▸ onGrid_two_zpow le_rfl

theorem OnGrid.exists_units {q : ℚ} (h : OnGrid q) : ∃ z : ℤ, q = z * smallest := by
  obtain ⟨m, e, d, hq⟩ := h
  obtain ⟨k, hk⟩ := units_of_le (m := m) d.low
  rw [hk, ← smallest_eq] at hq
  obtain pos | neg := abs_choice q
  · exact ⟨k, by push_cast; linarith⟩
  · exact ⟨-k, by push_cast; linarith⟩

/-- A sum of two numbers of the grid is nothing or at least the smallest of them. -/
theorem smallest_le_add {p q : ℚ} (hp : OnGrid p) (hq : OnGrid q) (pos : 0 < p + q) : smallest ≤ p + q := by
  obtain ⟨y, hy⟩ := hp.exists_units
  obtain ⟨z, hz⟩ := hq.exists_units
  have total : p + q = ((y + z : ℤ) : ℚ) * smallest := by rw [hy, hz]; push_cast; ring
  rw [total] at pos ⊢
  have whole : 0 < y + z := by exact_mod_cast pos_of_mul_pos_left pos smallest_pos.le
  have one : (1 : ℚ) ≤ ((y + z : ℤ) : ℚ) := by exact_mod_cast whole
  exact le_mul_of_one_le_left smallest_pos.le one

/-- Every number of a lower exponent is below the full mantissas of a higher one. -/
theorem Digits.lt_of_exponent_lt {m m' : ℕ} {e e' : ℤ} (h : Digits m e) (h' : Digits m' e')
    (he : e < e') : (m : ℚ) * 2 ^ e < m' * 2 ^ e' := by
  have full : (2 : ℚ) ^ 52 ≤ m' := by exact_mod_cast h'.full.resolve_right (by have := h.low; omega)
  have short : (m : ℚ) < 2 ^ 53 := by exact_mod_cast h.short
  calc (m : ℚ) * 2 ^ e < 2 ^ 53 * 2 ^ e := mul_lt_mul_of_pos_right short (two_zpow_pos e)
    _ = 2 ^ 52 * 2 ^ (e + 1) := by rw [two_zpow_add]; ring
    _ ≤ 2 ^ 52 * 2 ^ e' := by gcongr <;> [norm_num; omega]
    _ ≤ m' * 2 ^ e' := mul_le_mul_of_nonneg_right full (two_zpow_pos e').le

/-! ### Residual bits -/

/-- A mantissa with its residual bits stands for a number that it truncates. The round bit
tells whether half a unit was cut off, the sticky bit whether anything else was. -/
structure Residue (em : ExtendedMantissa) (x : ℝ) : Prop where
  le : em.mantissa ≤ x
  lt : x < em.mantissa + 1
  round : em.roundBit = true ↔ em.mantissa + 1 / 2 ≤ x
  sticky : em.stickyBit = true ↔ x ≠ em.mantissa ∧ x ≠ em.mantissa + 1 / 2

namespace Residue

variable {em : ExtendedMantissa} {x : ℝ}

theorem cut_iff (h : Residue em x) : (em.roundBit || em.stickyBit) = true ↔ x ≠ em.mantissa := by
  rw [Bool.or_eq_true, h.round, h.sticky]
  constructor
  · rintro (half | ⟨cut, -⟩)
    · linarith
    · exact cut
  · intro cut
    by_cases half : x = em.mantissa + 1 / 2
    · exact .inl half.ge
    · exact .inr ⟨cut, half⟩

theorem shiftRightOne (h : Residue em x) : Residue em.shiftRightOne (x / 2) := by
  have split : ((em.mantissa / 2 : ℕ) : ℝ) * 2 + (em.mantissa % 2 : ℕ) = em.mantissa := by
    exact_mod_cast Nat.div_add_mod' em.mantissa 2
  have le := h.le
  have lt := h.lt
  have cut := h.cut_iff
  obtain even | odd := Nat.mod_two_eq_zero_or_one em.mantissa
  · rw [even, Nat.cast_zero, add_zero] at split
    rw [← split] at le lt cut
    refine ⟨?_, ?_, ?_, ?_⟩ <;> simp only [ExtendedMantissa.shiftRightOne]
    · linarith
    · linarith
    · rw [even]
      exact ⟨fun h => absurd h (by decide), fun half => by linarith⟩
    · rw [cut, ne_eq, ne_eq, ne_eq, div_eq_iff two_ne_zero]
      exact ⟨fun other => ⟨other, fun half => by linarith⟩, And.left⟩
  · rw [odd, Nat.cast_one] at split
    rw [← split] at le lt cut
    refine ⟨?_, ?_, ?_, ?_⟩ <;> simp only [ExtendedMantissa.shiftRightOne]
    · linarith
    · linarith
    · rw [odd]
      exact ⟨fun _ => by linarith, fun _ => rfl⟩
    · rw [cut]
      refine ⟨fun other => ⟨fun whole => by linarith, fun half => other (by linarith)⟩, fun other whole => other.2 ?_⟩
      linarith

theorem shiftRight (h : Residue em x) (n : ℕ) : Residue (em >>> n) (x / 2 ^ n) := by
  change Residue (n.repeat ExtendedMantissa.shiftRightOne em) _
  induction n with
  | zero => simpa [Nat.repeat] using h
  | succ n ih => simpa only [Nat.repeat, pow_succ, div_mul_eq_div_div] using ih.shiftRightOne

/-- The rounded mantissa is the truncated one, or the next if something was cut off. -/
theorem roundedMantissa_cases (em : ExtendedMantissa) :
    em.roundedMantissa = em.mantissa ∨
      em.roundBit = true ∧ em.roundedMantissa = em.mantissa + 1 := by
  obtain ⟨m, round, sticky⟩ := em
  cases round <;> cases sticky <;>
    simp [ExtendedMantissa.roundedMantissa, ExtendedMantissa.accuracy, Accuracy.roundToNearestEven]
  omega

/-- The rounded mantissa is at most half a unit away. -/
theorem abs_rounded_sub_le (h : Residue em x) : |(em.roundedMantissa : ℝ) - x| ≤ 1 / 2 := by
  obtain ⟨m, round, sticky⟩ := em
  obtain ⟨le, lt, hround, hsticky⟩ := h
  dsimp only at le lt hround hsticky
  rw [abs_le]
  cases round <;> cases sticky <;>
    simp only [ExtendedMantissa.roundedMantissa, ExtendedMantissa.accuracy, Accuracy.roundToNearestEven] <;>
    simp only [true_iff, Bool.false_eq_true, false_iff, not_le, not_and_or, not_not] at hround hsticky
  · -- nothing was cut off
    have whole : x = m := hsticky.resolve_right fun half => by linarith
    constructor <;> linarith
  · constructor <;> linarith
  · -- the middle: either mantissa is as near
    have middle : x = m + 1 / 2 := hsticky.resolve_left fun whole => by linarith
    obtain even | odd := Nat.mod_two_eq_zero_or_one m
    · rw [even, add_zero]
      constructor <;> linarith
    · rw [odd, Nat.cast_add, Nat.cast_one]
      constructor <;> linarith
  · rw [Nat.cast_add, Nat.cast_one]
    constructor <;> linarith

/-- No whole number is nearer than the rounded mantissa. -/
theorem abs_rounded_sub_le_abs (h : Residue em x) (k : ℕ) : |(em.roundedMantissa : ℝ) - x| ≤ |(k : ℝ) - x| := by
  have near := abs_le.mp h.abs_rounded_sub_le
  obtain less | rfl | more := Nat.lt_trichotomy k em.roundedMantissa
  · have apart : (k : ℝ) + 1 ≤ em.roundedMantissa := by exact_mod_cast less
    exact h.abs_rounded_sub_le.trans (le_abs.mpr (.inr (by linarith)))
  · exact le_rfl
  · have apart : (em.roundedMantissa : ℝ) + 1 ≤ k := by exact_mod_cast more
    exact h.abs_rounded_sub_le.trans (le_abs.mpr (.inl (by linarith)))

end Residue

theorem residue_exact (m : ℕ) : Residue (.ofMantissaAndAccuracy m .exact) m := by
  refine ⟨le_rfl, ?_, ?_, ?_⟩ <;> simp [ExtendedMantissa.ofMantissaAndAccuracy]

/-- Where something was cut off, its order against half a unit tells the residual bits. -/
theorem residue_inexact {m : ℕ} {x : ℝ} (low : m < x) (high : x < m + 1) :
    Residue (.ofMantissaAndAccuracy m (.inexact (compare x (m + 1 / 2)))) x := by
  obtain below | middle | above := lt_trichotomy x (m + 1 / 2)
  · rw [compare_lt_iff_lt.mpr below]
    refine ⟨low.le, high, ?_, ?_⟩ <;> simp only [ExtendedMantissa.ofMantissaAndAccuracy]
    · exact ⟨fun h => absurd h (by decide), fun h => absurd h (not_le.mpr below)⟩
    · exact ⟨fun _ => ⟨low.ne', below.ne⟩, fun _ => trivial⟩
  · rw [compare_eq_iff_eq.mpr middle]
    refine ⟨low.le, high, ?_, ?_⟩ <;> simp only [ExtendedMantissa.ofMantissaAndAccuracy]
    · exact ⟨fun _ => middle.ge, fun _ => trivial⟩
    · exact ⟨fun h => absurd h (by decide), fun h => absurd middle h.2⟩
  · rw [compare_gt_iff_gt.mpr above]
    refine ⟨low.le, high, ?_, ?_⟩ <;> simp only [ExtendedMantissa.ofMantissaAndAccuracy]
    · exact ⟨fun _ => above.le, fun _ => trivial⟩
    · exact ⟨fun _ => ⟨low.ne', above.ne'⟩, fun _ => trivial⟩

/-! ### Values -/

def unit : Sign → ℚ
  | .negative => -1
  | .positive => 1

/-- The first power of two beyond the finite numbers. -/
@[irreducible] def limit : ℚ := 2 ^ (1024 : ℤ)

theorem limit_eq : limit = 2 ^ (1024 : ℤ) := by unfold limit; rfl

theorem limit_pos : 0 < limit := limit_eq ▸ two_zpow_pos 1024

theorem onGrid_limit : OnGrid limit := limit_eq ▸ onGrid_two_zpow (by norm_num)

theorem two_zpow_le_limit {k : ℤ} (h : k ≤ 1024) : (2 : ℚ) ^ k ≤ limit :=
  limit_eq ▸ zpow_le_zpow_right₀ (by norm_num) h

/-- The number a float stands for. An infinity counts as the limit, what is not a
number as zero. -/
def toRat : UnpackedFloat → ℚ
  | .infinity s => unit s * limit
  | .notANumber => 0
  | .zero _ => 0
  | .finite s m e _ => unit s * (m * 2 ^ e)

def Canonical : UnpackedFloat → Prop
  | .finite _ m e _ => Digits m e
  | _ => True

@[simp] theorem unit_mul (s t : Sign) : unit (s * t) = unit s * unit t := by
  cases s <;> cases t
  · exact (by norm_num : (1 : ℚ) = -1 * -1)
  · exact (by norm_num : (-1 : ℚ) = -1 * 1)
  · exact (by norm_num : (-1 : ℚ) = 1 * -1)
  · exact (by norm_num : (1 : ℚ) = 1 * 1)

@[simp] theorem unit_div (s t : Sign) : unit (s / t) = unit s * unit t := by
  rw [← unit_mul]
  cases s <;> cases t <;> rfl

@[simp] theorem unit_neg (s : Sign) : unit (-s) = -unit s := by cases s <;> rfl

@[simp] theorem apply_eq (s : Sign) (m : ℤ) : ((s.apply m : ℤ) : ℚ) = unit s * m := by
  cases s <;> simp [unit, Sign.apply]

theorem unit_cases (s : Sign) : unit s = 1 ∨ unit s = -1 := by cases s <;> simp [unit]

theorem onGrid_toRat {u : UnpackedFloat} (h : Canonical u) : OnGrid (toRat u) := by
  have signed {q : ℚ} (hq : OnGrid q) (s : Sign) : OnGrid (unit s * q) := by
    obtain hs | hs := unit_cases s
    · simpa [hs] using hq
    · simpa [hs] using hq.neg
  cases u with
  | infinity s => exact signed onGrid_limit s
  | notANumber => exact onGrid_zero
  | zero s => exact onGrid_zero
  | finite s m e hm => exact signed (Digits.onGrid h) s

/-! ### The nearest number -/

/-- A float is as near to an exact number as any number of the grid. -/
structure Nearest (q : ℝ) (u : UnpackedFloat) : Prop where
  finite : u.isFinite = true
  canonical : Canonical u
  near : ∀ {F}, OnGrid F → |(toRat u : ℝ) - q| ≤ |(F : ℝ) - q|

/-- A float rounds an exact number: no number of the grid lies between the two, or
separates them. -/
structure Rounded (q : ℚ) (u : UnpackedFloat) : Prop where
  finite : u.isFinite = true
  canonical : Canonical u
  le_of_le : ∀ {F}, OnGrid F → q ≤ F → toRat u ≤ F
  le_of_ge : ∀ {F}, OnGrid F → F ≤ q → F ≤ toRat u

/-- No number of the grid lies between an exact number and the nearest one. -/
theorem Nearest.rounded {q : ℚ} {u : UnpackedFloat} (h : Nearest q u) : Rounded q u := by
  have near {F : ℚ} (hF : OnGrid F) : |toRat u - q| ≤ |F - q| := by exact_mod_cast h.near hF
  refine ⟨h.finite, h.canonical, fun hF le => ?_, fun hF le => ?_⟩
  · have away := near hF
    rw [abs_of_nonneg (sub_nonneg.mpr le)] at away
    linarith [le_abs_self (toRat u - q)]
  · have away := near hF
    rw [abs_of_nonpos (sub_nonpos.mpr le)] at away
    linarith [neg_abs_le (toRat u - q)]

theorem nearest_self {u : UnpackedFloat} (hf : u.isFinite = true) (hc : Canonical u) : Nearest (toRat u) u :=
  ⟨hf, hc, fun _ => by simp⟩

theorem nearest_zero (s : Sign) : Nearest (0 : ℚ) (.zero s) := nearest_self (u := .zero s) rfl trivial

/-- Of two exact numbers the greater is not rounded to less. -/
theorem Nearest.mono {q q' : ℝ} {u u' : UnpackedFloat} (h : Nearest q u) (h' : Nearest q' u') (lt : q < q') :
    toRat u ≤ toRat u' := by
  by_contra crossed
  have crossed : (toRat u' : ℝ) < toRat u := by exact_mod_cast not_le.mp crossed
  have first := sq_le_sq.mpr (h.near (onGrid_toRat h'.canonical))
  have second := sq_le_sq.mpr (h'.near (onGrid_toRat h.canonical))
  nlinarith

/-! ### Rounding -/

theorem targetExponent_eq (e : ℤ) : Format.binary64.targetExponent e = max (e - 53) (-1074) := by
  simp only [Format.targetExponent, Format.mantissaBits, Format.minExponent]
  norm_num

theorem target_eq (m : ℕ) (e : ℤ) :
    Format.binary64.targetExponent (totalExponent m e) = max (m.log2 + e - 52) (-1074) := by
  rw [targetExponent_eq, totalExponent]
  omega

theorem shiftRight_mantissa (em : ExtendedMantissa) (n : ℕ) : (em >>> n).mantissa = em.mantissa / 2 ^ n := by
  change (n.repeat ExtendedMantissa.shiftRightOne em).mantissa = _
  induction n with
  | zero => simp [Nat.repeat]
  | succ n ih => simp [Nat.repeat, ExtendedMantissa.shiftRightOne, ih, Nat.div_div_eq_div_mul, Nat.pow_succ]

/-- How many bits do not fit. -/
def excess (m : ℕ) (e : ℤ) : ℕ := (max (m.log2 + e - 52) (-1074) - e).toNat

theorem shiftToTargetExponent_eq (m : ℕ) (e : ℤ) (acc : Accuracy) :
    shiftToTargetExponent .binary64 m e acc =
      (ExtendedMantissa.ofMantissaAndAccuracy m acc >>> excess m e, e + excess m e) := by
  simp only [shiftToTargetExponent, shiftToExponent, target_eq, excess]

/-- A mantissa with bits enough is a full one after the shift. -/
theorem digits_shifted {m : ℕ} {e : ℤ} (he : e ≤ max (m.log2 + e - 52) (-1074)) :
    Digits (m / 2 ^ excess m e) (e + excess m e) := by
  have shift : e + excess m e = max (m.log2 + e - 52) (-1074) := by unfold excess; omega
  refine ⟨?_, by omega, ?_⟩
  · rw [Nat.div_lt_iff_lt_mul (Nat.two_pow_pos _), ← Nat.pow_add]
    exact Nat.lt_log2_self.trans_le (Nat.pow_le_pow_right two_pos (by omega))
  · obtain low | low := eq_or_ne (e + excess m e) (-1074)
    · exact .inr low
    · have bits : m.log2 = 52 + excess m e := by omega
      have hm : m ≠ 0 := by rintro rfl; rw [Nat.log2_zero] at bits; omega
      refine .inl ((Nat.le_div_iff_mul_le (Nat.two_pow_pos _)).2 ?_)
      rw [← Nat.pow_add, ← bits]
      exact Nat.log2_self_le hm

/-- Rounding up may carry into one bit more, which is then shifted out again. -/
theorem digits_carried {r : ℕ} {e : ℤ} (hr : r ≤ 2 ^ 53) (he : -1074 ≤ e) (full : 2 ^ 52 ≤ r ∨ e = -1074) :
    Digits (r / 2 ^ excess r e) (e + excess r e) ∧
      ((r / 2 ^ excess r e : ℕ) : ℚ) * 2 ^ (e + excess r e) = r * 2 ^ e := by
  obtain short | carry := hr.lt_or_eq
  · have bits : r.log2 ≤ 52 := by
      obtain rfl | hr := Nat.eq_zero_or_pos r
      · simp
      · exact Nat.le_of_lt_succ ((Nat.log2_lt hr.ne').2 short)
    have none : excess r e = 0 := by unfold excess; omega
    simpa [none] using ⟨short, he, full⟩
  · subst carry
    have one : excess (2 ^ 53) e = 1 := by
      unfold excess
      rw [Nat.log2_two_pow]
      omega
    rw [one]
    refine ⟨⟨by norm_num, by omega, .inl (by norm_num)⟩, ?_⟩
    rw [two_zpow_add]
    norm_num
    ring

theorem cast_digits (m : ℕ) (e : ℤ) : ((m * 2 ^ e : ℚ) : ℝ) = m * 2 ^ e := by
  push_cast
  rfl

/-- A magnitude that is nearest among the magnitudes of the grid is nearest on the grid. -/
theorem nearest_of_digits {m : ℕ} {e : ℤ} {q : ℝ} (s : Sign) (d : Digits m e) (hq : 0 ≤ q)
    (near : ∀ {m' e'}, Digits m' e' → |(m : ℝ) * 2 ^ e - q| ≤ |(m' : ℝ) * 2 ^ e' - q|) :
    Nearest (unit s * q) (if h : m = 0 then .zero s else .finite s m e (Nat.pos_of_ne_zero h)) := by
  have value : toRat (if h : m = 0 then .zero s else .finite s m e (Nat.pos_of_ne_zero h)) =
      unit s * (m * 2 ^ e) := by
    split <;> simp_all [toRat]
  refine ⟨by split <;> rfl, by split <;> trivial, fun {F} hF => ?_⟩
  obtain ⟨m', e', d', size⟩ := hF
  have magnitude : |(unit s : ℝ) * q| = q := by
    obtain hs | hs := unit_cases s <;> simp [hs, abs_of_nonneg hq]
  have taken : |(unit s : ℝ) * (m * 2 ^ e) - unit s * q| = |(m : ℝ) * 2 ^ e - q| := by
    obtain hs | hs := unit_cases s
    · rw [hs, Rat.cast_one, one_mul, one_mul]
    · rw [hs, Rat.cast_neg, Rat.cast_one, neg_one_mul, neg_one_mul, neg_sub_neg, abs_sub_comm]
  calc |(toRat (if h : m = 0 then .zero s else .finite s m e (Nat.pos_of_ne_zero h)) : ℝ) - unit s * q|
      = |(m : ℝ) * 2 ^ e - q| := by rw [value, Rat.cast_mul, cast_digits, taken]
    _ ≤ |(m' : ℝ) * 2 ^ e' - q| := near d'
    _ = abs (|(F : ℝ)| - |(unit s : ℝ) * q|) := by rw [magnitude, ← Rat.cast_abs, size, cast_digits]
    _ ≤ |(F : ℝ) - unit s * q| := abs_abs_sub_abs_le _ _

/-- Once the mantissa is a stored one, the rounded mantissa is the nearest: grid numbers of
a lower exponent are all below, the others are whole. -/
theorem Residue.near {em : ExtendedMantissa} {y : ℝ} {t : ℤ} (h : Residue em y) (d : Digits em.mantissa t)
    {m : ℕ} {e : ℤ} (d' : Digits m e) :
    |(em.roundedMantissa : ℝ) * 2 ^ t - y * 2 ^ t| ≤ |(m : ℝ) * 2 ^ e - y * 2 ^ t| := by
  have pos : (0 : ℝ) < 2 ^ t := zpow_pos two_pos t
  have scaled (k : ℝ) : |k * 2 ^ t - y * 2 ^ t| = |k - y| * 2 ^ t := by
    rw [← sub_mul, abs_mul, abs_of_pos pos]
  obtain high | low := le_or_gt t e
  · obtain ⟨k, hk⟩ := units_of_le (m := m) high
    rw [← cast_digits m, hk, cast_digits, scaled, scaled]
    exact mul_le_mul_of_nonneg_right (h.abs_rounded_sub_le_abs k) pos.le
  · have below : (m : ℝ) * 2 ^ e < em.mantissa * 2 ^ t := by
      rw [← cast_digits, ← cast_digits]
      exact Rat.cast_lt.mpr (d'.lt_of_exponent_lt d low)
    have kept : (em.mantissa : ℝ) * 2 ^ t ≤ y * 2 ^ t := mul_le_mul_of_nonneg_right h.le pos.le
    calc |(em.roundedMantissa : ℝ) * 2 ^ t - y * 2 ^ t| = |(em.roundedMantissa : ℝ) - y| * 2 ^ t := scaled _
      _ ≤ |(em.mantissa : ℝ) - y| * 2 ^ t := mul_le_mul_of_nonneg_right (h.abs_rounded_sub_le_abs _) pos.le
      _ = |(em.mantissa : ℝ) * 2 ^ t - y * 2 ^ t| := (scaled _).symm
      _ ≤ |(m : ℝ) * 2 ^ e - y * 2 ^ t| := by
        rw [abs_of_nonpos (by linarith), abs_of_nonpos (by linarith)]
        linarith

theorem nearest_roundWithAccuracy (s : Sign) {m : ℕ} {e : ℤ} {acc : Accuracy} {x : ℝ}
    (hx : Residue (.ofMantissaAndAccuracy m acc) x) (he : e ≤ max (m.log2 + e - 52) (-1074)) :
    Nearest (unit s * (x * 2 ^ e)) (roundWithAccuracy .binary64 s m e acc) := by
  have kept : (ExtendedMantissa.ofMantissaAndAccuracy m acc).mantissa = m := by
    rcases acc with _ | (_ | _ | _) <;> rfl
  have shifted := shiftRight_mantissa (.ofMantissaAndAccuracy m acc) (excess m e)
  rw [kept] at shifted
  have d := digits_shifted he
  rw [← shifted] at d
  have cut := hx.shiftRight (excess m e)
  set em := ExtendedMantissa.ofMantissaAndAccuracy m acc >>> excess m e with hem
  set t := e + excess m e with ht
  have q : x * 2 ^ e = x / 2 ^ excess m e * 2 ^ t := by
    rw [ht, zpow_add₀ two_ne_zero, zpow_natCast]
    field_simp
  have grown : em.mantissa ≤ em.roundedMantissa := by
    obtain same | ⟨-, next⟩ := Residue.roundedMantissa_cases em <;> omega
  have bounded : em.roundedMantissa ≤ 2 ^ 53 := by
    have := d.short
    obtain same | ⟨-, next⟩ := Residue.roundedMantissa_cases em <;> omega
  obtain ⟨d', hv⟩ := digits_carried bounded d.low (d.full.imp_left (·.trans grown))
  have nonneg : 0 ≤ x * 2 ^ e := by
    rw [q]
    exact mul_nonneg ((Nat.cast_nonneg _).trans cut.le) (zpow_pos two_pos t).le
  rw [roundWithAccuracy, shiftToTargetExponent_eq]
  simp only [← hem, ← ht, shiftToTargetExponent_eq, shiftRight_mantissa]
  refine nearest_of_digits s d' nonneg fun {m' e'} d₁ => ?_
  have near := cut.near d d₁
  rw [← cast_digits em.roundedMantissa, ← hv, cast_digits, ← q] at near
  exact near

/-- The same for an exact number that is rational. -/
theorem nearest_of_rational (s : Sign) {m : ℕ} {e : ℤ} {acc : Accuracy} {x : ℚ}
    (hx : Residue (.ofMantissaAndAccuracy m acc) x) (he : e ≤ max (m.log2 + e - 52) (-1074)) :
    Nearest (unit s * (x * 2 ^ e) : ℚ) (roundWithAccuracy .binary64 s m e acc) := by
  push_cast
  exact nearest_roundWithAccuracy s hx he

theorem decreaseExponent_value (m : ℕ) (e t : ℤ) :
    ((decreaseExponent m e t).1 : ℚ) * 2 ^ (decreaseExponent m e t).2 = m * 2 ^ e := by
  rw [decreaseExponent, Nat.shiftLeft_eq, Nat.cast_mul, mul_assoc, natCast_two_pow_mul]
  congr 2
  omega

theorem decreaseExponent_snd {m : ℕ} {e t : ℤ} (h : t ≤ e) : (decreaseExponent m e t).2 = t := by
  simp only [decreaseExponent]
  omega

theorem log2_add_le {m : ℕ} (hm : 0 < m) (k : ℕ) : m.log2 + k ≤ (m <<< k).log2 := by
  rw [Nat.shiftLeft_eq, Nat.le_log2 (by positivity), Nat.pow_add]
  gcongr
  exact Nat.log2_self_le hm.ne'

theorem nearest_round (s : Sign) {m : ℕ} (hm : 0 < m) (e : ℤ) :
    Nearest (unit s * (m * 2 ^ e) : ℚ) (UnpackedFloat.round .binary64 s m e) := by
  have value := decreaseExponent_value m e (max (m.log2 + e - 52) (-1074))
  rw [UnpackedFloat.round, target_eq, ← value]
  refine nearest_of_rational s (by rw [Rat.cast_natCast]; exact residue_exact _) ?_
  have grown := log2_add_le hm (e - max (m.log2 + e - 52) (-1074)).toNat
  simp only [decreaseExponent]
  omega

theorem nearest_normalize (m : ℤ) (e : ℤ) (zero : Sign) :
    Nearest (m * 2 ^ e : ℚ) (UnpackedFloat.normalize .binary64 m e zero) := by
  unfold UnpackedFloat.normalize
  obtain neg | rfl | pos := lt_trichotomy m 0
  · rw [Int.compare_eq_lt.2 neg]
    have size : ((-m).toNat : ℤ) = -m := Int.toNat_of_nonneg (by omega)
    have h := nearest_round .negative (m := (-m).toNat) (by omega) e
    have cast : (((-m).toNat : ℕ) : ℝ) = -m := by exact_mod_cast size
    simpa [unit, cast] using h
  · simpa using nearest_zero zero
  · rw [Int.compare_eq_gt.2 pos]
    have size : (m.toNat : ℤ) = m := Int.toNat_of_nonneg pos.le
    have h := nearest_round .positive (m := m.toNat) (by omega) e
    have cast : ((m.toNat : ℕ) : ℝ) = m := by exact_mod_cast size
    simpa [unit, cast] using h

end CodeAtlas.Binary64
