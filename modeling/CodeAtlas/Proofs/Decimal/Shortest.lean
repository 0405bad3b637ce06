import CodeAtlas.Decimal.Shortest
import Mathlib.Algebra.Order.Field.Power
import Mathlib.Data.Rat.Cast.Order
import Mathlib.Tactic.FieldSimp
import Mathlib.Tactic.Linarith
import Mathlib.Tactic.NormNum
import Mathlib.Tactic.Positivity
import Mathlib.Tactic.Ring

/-! The digits of a float tell it from all others of its width.

The digits that are found lie in the rounding interval of the float: a hit does by the
test it passed, and if no grid has a hit, the finest one has a step of less than a
quarter of a unit, so that the nearer neighbour does (`readsBack_shortest`). The
intervals of two floats of one width have at most an end in common, and then it counts
for one of them only (`ReadsBack.not_lt`). -/
namespace CodeAtlas.Decimal

/-! ### Rounding intervals -/

/-- A mantissa and an exponent in the one form in which a float has them, with this many
bits stored and this least exponent; the lower neighbour is half as far away below the
full mantissas of an exponent that is not the least. -/
structure Stored (bits : ℕ) (least : ℤ) (m : ℕ) (e : ℤ) (narrow : Bool) : Prop where
  short : m < 2 ^ (bits + 1)
  low : least ≤ e
  full : 2 ^ bits ≤ m ∨ e = least
  narrow_iff : narrow = true ↔ m = 2 ^ bits ∧ least < e

/-- How far the interval goes down, in quarter units. -/
def gap (narrow : Bool) : ℕ := if narrow then 1 else 2

/-- The number is in the rounding interval, whose ends count when the mantissa is even. -/
structure ReadsBack (m : ℕ) (e : ℤ) (narrow : Bool) (x : ℚ) : Prop where
  low_le : (4 * m - gap narrow) * 2 ^ (e - 2) ≤ x
  le_high : x ≤ (4 * m + 2) * 2 ^ (e - 2)
  low_lt : m % 2 = 1 → (4 * m - gap narrow) * 2 ^ (e - 2) < x
  lt_high : m % 2 = 1 → x < (4 * m + 2) * 2 ^ (e - 2)

theorem unit_pos (e : ℤ) : (0 : ℚ) < 2 ^ e := zpow_pos (by norm_num) e

theorem unit_eq (e : ℤ) : (2 : ℚ) ^ e = 4 * 2 ^ (e - 2) := by
  rw [zpow_sub₀ (by norm_num)]
  norm_num
  ring

section
variable {bits m m' : ℕ} {least e e' : ℤ} {n n' : Bool} {x : ℚ}

theorem gap_le (n : Bool) : (gap n : ℚ) ≤ 2 := by cases n <;> norm_num [gap]

theorem one_le_gap (n : Bool) : (1 : ℚ) ≤ gap n := by cases n <;> norm_num [gap]

/-- Above the least exponent all intervals begin at three quarters below the full mantissas or higher. -/
theorem Stored.floor (h : Stored bits least m e n) (he : least < e) : (4 * 2 ^ bits - 1 : ℚ) ≤ 4 * m - gap n := by
  have full : 2 ^ bits ≤ m := h.full.resolve_right he.ne'
  cases n with
  | true =>
    have : (2 ^ bits : ℚ) ≤ m := by exact_mod_cast full
    norm_num [gap]
    linarith
  | false =>
    have next : 2 ^ bits + 1 ≤ m := by
      refine full.lt_of_ne fun same => ?_
      exact absurd (h.narrow_iff.mpr ⟨same.symm, he⟩) (by decide)
    have : (2 ^ bits + 1 : ℚ) ≤ m := by exact_mod_cast next
    norm_num [gap]
    linarith

/-- The interval of a float ends below that of a greater one, or where it begins, and then one mantissa is odd. -/
theorem Stored.apart (h : Stored bits least m e n) (h' : Stored bits least m' e' n') (lt : e < e' ∨ e = e' ∧ m < m') :
    (4 * m + 2 : ℚ) * 2 ^ (e - 2) ≤ (4 * m' - gap n') * 2 ^ (e' - 2) ∧
      (m % 2 = 0 → m' % 2 = 0 → (4 * m + 2 : ℚ) * 2 ^ (e - 2) < (4 * m' - gap n') * 2 ^ (e' - 2)) := by
  have pos := unit_pos (e - 2)
  rcases lt with lt | ⟨rfl, lt⟩
  · have twice : 2 * 2 ^ (e - 2) ≤ (2 : ℚ) ^ (e' - 2) := by
      rw [← zpow_one_add₀ (by norm_num)]
      exact zpow_le_zpow_right₀ (by norm_num) (by omega)
    have begins : (8 * 2 ^ bits - 2 : ℚ) * 2 ^ (e - 2) ≤ (4 * m' - gap n') * 2 ^ (e' - 2) := by
      have floor := h'.floor (h.low.trans_lt lt)
      have one : (1 : ℚ) ≤ 2 ^ bits := one_le_pow₀ (by norm_num)
      calc (8 * 2 ^ bits - 2 : ℚ) * 2 ^ (e - 2) = (4 * 2 ^ bits - 1) * (2 * 2 ^ (e - 2)) := by ring
        _ ≤ (4 * m' - gap n') * 2 ^ (e' - 2) := by gcongr; linarith
    have short := h.short
    rw [pow_succ] at short
    refine ⟨le_trans ?_ begins, fun even _ => lt_of_lt_of_le ?_ begins⟩
    · have : (m + 1 : ℚ) ≤ 2 ^ bits * 2 := by exact_mod_cast short
      gcongr
      linarith
    · have : (m + 2 : ℚ) ≤ 2 ^ bits * 2 := by exact_mod_cast (by omega : m + 2 ≤ 2 ^ bits * 2)
      gcongr
      linarith
  · have small := gap_le n'
    refine ⟨?_, fun even even' => ?_⟩
    · have : (m + 1 : ℚ) ≤ m' := by exact_mod_cast lt
      gcongr
      linarith
    · have : (m + 2 : ℚ) ≤ m' := by exact_mod_cast (by omega : m + 2 ≤ m')
      gcongr
      linarith

/-- No number is in the intervals of a float and of a greater one. -/
theorem ReadsBack.not_lt (h : Stored bits least m e n) (h' : Stored bits least m' e' n')
    (lt : e < e' ∨ e = e' ∧ m < m') (hx : ReadsBack m e n x) (hx' : ReadsBack m' e' n' x) : False := by
  obtain ⟨le, lt⟩ := h.apart h' lt
  obtain even | odd := Nat.mod_two_eq_zero_or_one m
  · obtain even' | odd' := Nat.mod_two_eq_zero_or_one m'
    · linarith [lt even even', hx.le_high, hx'.low_le]
    · linarith [hx.le_high, hx'.low_lt odd']
  · linarith [hx.lt_high odd, hx'.low_le]

/-- A number reads back as one float only. -/
theorem ReadsBack.unique (h : Stored bits least m e n) (h' : Stored bits least m' e' n')
    (hx : ReadsBack m e n x) (hx' : ReadsBack m' e' n' x) : m = m' ∧ e = e' := by
  obtain lt | rfl | lt := lt_trichotomy e e'
  · exact (hx.not_lt h h' (.inl lt) hx').elim
  · obtain lt | rfl | lt := lt_trichotomy m m'
    · exact (hx.not_lt h h' (.inr ⟨rfl, lt⟩) hx').elim
    · exact ⟨rfl, rfl⟩
    · exact (hx'.not_lt h' h (.inr ⟨rfl, lt⟩) hx).elim
  · exact (hx'.not_lt h' h (.inl lt) hx).elim

end

/-! ### Comparisons, exactly -/

theorem natCast_zpow {b : ℕ} {k : ℤ} (h : 0 ≤ k) : ((Nat.pow b k.toNat : ℕ) : ℚ) = (b : ℚ) ^ k := by
  rw [Nat.pow_eq, Nat.cast_pow, ← zpow_natCast, Int.toNat_of_nonneg h]

theorem zpow_mul_natCast {b : ℕ} (hb : 0 < b) {k : ℤ} (h : ¬ 0 ≤ k) : (b : ℚ) ^ k * (Nat.pow b (-k).toNat : ℕ) = 1 := by
  have hb : (b : ℚ) ≠ 0 := by exact_mod_cast hb.ne'
  rw [natCast_zpow (by omega), ← zpow_add₀ hb, add_neg_cancel, zpow_zero]

theorem natPow_pos {b : ℕ} (hb : 0 < b) (k : ℕ) : (0 : ℚ) < (Nat.pow b k : ℕ) := by
  exact_mod_cast Nat.pow_pos hb

/-- A power of two as it is scaled. -/
theorem scaled_one (e : ℤ) : 0 < (scaled 1 e).2 ∧ ((scaled 1 e).1 : ℚ) = 2 ^ e * (scaled 1 e).2 := by
  unfold scaled
  split
  · rename_i h
    refine ⟨one_pos, ?_⟩
    rw [one_mul, natCast_zpow h]
    simp
  · rename_i h
    refine ⟨Nat.pow_pos two_pos, ?_⟩
    simpa using (zpow_mul_natCast two_pos h).symm

theorem powerAtMost_iff (k : ℤ) (num den : ℕ) : powerAtMost k num den = true ↔ (10 : ℚ) ^ k * den ≤ num := by
  unfold powerAtMost
  split
  · rename_i h
    have ten := natCast_zpow (b := 10) h
    rw [Nat.cast_ofNat] at ten
    rw [decide_eq_true_iff, ← ten]
    norm_cast
  · rename_i h
    have ten := zpow_mul_natCast (b := 10) (by norm_num) h
    rw [Nat.cast_ofNat] at ten
    have pos := natPow_pos (b := 10) (by norm_num) (-k).toNat
    rw [decide_eq_true_iff, ← mul_le_mul_iff_left₀ pos, mul_right_comm, ten, one_mul]
    norm_cast

namespace Interval

/-- Two numbers over one denominator are compared after any scaling. -/
theorem scaled_le {a b x : ℕ} {q : ℚ} {s : ℕ} (hs : 0 < s) (hx : (x : ℚ) = q * s) :
    (a * s ≤ x ↔ (a : ℚ) ≤ q) ∧ (x ≤ b * s ↔ q ≤ b) ∧ (a * s < x ↔ (a : ℚ) < q) ∧ (x < b * s ↔ q < b) := by
  have hs : (0 : ℚ) < s := by exact_mod_cast hs
  refine ⟨?_, ?_, ?_, ?_⟩
  · rw [← Nat.cast_le (α := ℚ), Nat.cast_mul, hx, mul_le_mul_iff_left₀ hs]
  · rw [← Nat.cast_le (α := ℚ), Nat.cast_mul, hx, mul_le_mul_iff_left₀ hs]
  · rw [← Nat.cast_lt (α := ℚ), Nat.cast_mul, hx, mul_lt_mul_iff_left₀ hs]
  · rw [← Nat.cast_lt (α := ℚ), Nat.cast_mul, hx, mul_lt_mul_iff_left₀ hs]

/-- A number of a decimal grid times the denominator, as a whole number and what it is scaled by. -/
theorem exists_scale (d : ℕ) (k : ℤ) (den : ℕ) :
    ∃ x s : ℕ, (if 0 ≤ k then (d * Nat.pow 10 k.toNat * den, 1) else (d * den, Nat.pow 10 (-k).toNat)) = (x, s) ∧
      0 < s ∧ (x : ℚ) = d * 10 ^ k * den * s := by
  by_cases hk : 0 ≤ k
  · refine ⟨_, _, if_pos hk, one_pos, ?_⟩
    rw [Nat.cast_mul, Nat.cast_mul, natCast_zpow hk]
    norm_num
  · refine ⟨_, _, if_neg hk, Nat.pow_pos (by norm_num), ?_⟩
    have ten := zpow_mul_natCast (b := 10) (by norm_num) hk
    rw [Nat.cast_ofNat] at ten
    rw [Nat.cast_mul, mul_right_comm, mul_assoc _ ((10 : ℚ) ^ k), ten, mul_one]

theorem holds_iff (i : Interval) (d : ℕ) (k : ℤ) : i.holds d k = true ↔
    if i.closed then (i.low : ℚ) ≤ d * 10 ^ k * i.den ∧ (d * 10 ^ k * i.den : ℚ) ≤ i.high
    else (i.low : ℚ) < d * 10 ^ k * i.den ∧ (d * 10 ^ k * i.den : ℚ) < i.high := by
  obtain ⟨x, s, hxs, hs, hx⟩ := exists_scale d k i.den
  obtain ⟨low_le, le_high, low_lt, lt_high⟩ := scaled_le (a := i.low) (b := i.high) hs hx
  unfold holds
  rw [hxs]
  cases i.closed
  · simp [low_lt, lt_high]
  · simp [low_le, le_high]

/-- The value is from the lower neighbour on, and below the upper one. -/
theorem neighbours_spec (i : Interval) (hd : 0 < i.den) (k : ℤ) :
    ((i.neighbours k).1 : ℚ) * 10 ^ k * i.den ≤ i.value ∧ i.value < ((i.neighbours k).1 + 1) * (10 : ℚ) ^ k * i.den := by
  -- The lower neighbour is the quotient of the value and the step, both scaled.
  have quotient : ∃ x s : ℕ, (i.neighbours k).1 = x / s ∧ 0 < s ∧ ∃ c : ℚ, 0 < c ∧ (x : ℚ) = i.value * c ∧
      (s : ℚ) = 10 ^ k * i.den * c := by
    unfold neighbours
    by_cases hk : 0 ≤ k
    · rw [if_pos hk]
      refine ⟨_, _, rfl, Nat.mul_pos hd (Nat.pow_pos (by norm_num)), 1, one_pos, by ring, ?_⟩
      rw [Nat.cast_mul, natCast_zpow hk]
      norm_num
      ring
    · rw [if_neg hk]
      have ten := zpow_mul_natCast (b := 10) (by norm_num) hk
      rw [Nat.cast_ofNat] at ten
      refine ⟨_, _, rfl, hd, _, natPow_pos (b := 10) (by norm_num) (-k).toNat, by push_cast; rfl, ?_⟩
      rw [mul_right_comm, ten, one_mul]
  obtain ⟨x, s, hq, hs, c, hc, hx, hsc⟩ := quotient
  have lower : ((x / s : ℕ) : ℚ) * s ≤ x := by exact_mod_cast Nat.div_mul_le_self x s
  have upper : (x : ℚ) < ((x / s : ℕ) + 1) * s := by
    rw [mul_comm]
    exact_mod_cast Nat.lt_mul_div_succ x hs
  rw [hq, ← mul_le_mul_iff_left₀ hc, ← mul_lt_mul_iff_left₀ hc, ← hx]
  rw [hsc] at lower upper
  constructor <;> linarith

end Interval

/-! ### The digits that are found -/

section
variable {m : ℕ} {e k : ℤ} {n : Bool} {d : ℕ}

theorem around_den (m : ℕ) (e : ℤ) (n : Bool) : 0 < (Interval.around m e n).den := (scaled_one (e - 2)).1

theorem around_value (m : ℕ) (e : ℤ) (n : Bool) :
    ((Interval.around m e n).value : ℚ) = m * 2 ^ e * (Interval.around m e n).den := by
  show ((4 * m * (scaled 1 (e - 2)).1 : ℕ) : ℚ) = m * 2 ^ e * (scaled 1 (e - 2)).2
  rw [Nat.cast_mul, (scaled_one (e - 2)).2, unit_eq e]
  push_cast
  ring

/-- What passes the test reads back. -/
theorem ReadsBack.of_holds (hm : 0 < m) (h : (Interval.around m e n).holds d k = true) :
    ReadsBack m e n (d * 10 ^ k) := by
  obtain ⟨pos, unit⟩ := scaled_one (e - 2)
  have pos : (0 : ℚ) < (scaled 1 (e - 2)).2 := by exact_mod_cast pos
  have low : ((Interval.around m e n).low : ℚ) = (4 * m - gap n) * 2 ^ (e - 2) * (scaled 1 (e - 2)).2 := by
    show (((if n then 4 * m - 1 else 4 * m - 2) * (scaled 1 (e - 2)).1 : ℕ) : ℚ) = _
    rw [Nat.cast_mul, unit, ← mul_assoc]
    cases n with
    | true => simp [gap, Nat.cast_sub (by omega : 1 ≤ 4 * m)]
    | false => simp [gap, Nat.cast_sub (by omega : 2 ≤ 4 * m)]
  have high : ((Interval.around m e n).high : ℚ) = (4 * m + 2) * 2 ^ (e - 2) * (scaled 1 (e - 2)).2 := by
    show (((4 * m + 2) * (scaled 1 (e - 2)).1 : ℕ) : ℚ) = _
    rw [Nat.cast_mul, unit, ← mul_assoc]
    push_cast
    rfl
  have hden : (Interval.around m e n).den = (scaled 1 (e - 2)).2 := rfl
  rw [Interval.holds_iff, low, high, hden] at h
  simp only [mul_le_mul_iff_left₀ pos, mul_lt_mul_iff_left₀ pos] at h
  split at h
  · rename_i even
    have even : m % 2 = 0 := by simpa [Interval.around] using even
    exact ⟨h.1, h.2, by omega, by omega⟩
  · exact ⟨h.1.le, h.2.le, fun _ => h.1, fun _ => h.2⟩

/-- What is less than a quarter unit away reads back. -/
theorem ReadsBack.of_near {x : ℚ} (low : (m : ℚ) * 2 ^ e - 2 ^ (e - 2) < x) (high : x < m * 2 ^ e + 2 ^ (e - 2)) :
    ReadsBack m e n x := by
  have pos := unit_pos (e - 2)
  have down : (4 * m - gap n : ℚ) * 2 ^ (e - 2) < x := by
    have := mul_le_mul_of_nonneg_right (one_le_gap n) pos.le
    rw [unit_eq] at low
    linarith
  have up : x < (4 * m + 2 : ℚ) * 2 ^ (e - 2) := by
    rw [unit_eq] at high
    linarith
  exact ⟨down.le, up.le, fun _ => down, fun _ => up⟩

theorem holds_of_hit {i : Interval} (h : i.hit k = some d) : i.holds d k = true := by
  unfold Interval.hit at h
  dsimp only at h
  split at h
  · rename_i both
    rw [Bool.and_eq_true] at both
    split at h <;> cases h
    · exact both.2
    · exact both.1
  · split at h
    · cases h
      assumption
    · split at h <;> cases h
      assumption

/-- On a grid fine enough both neighbours read back. -/
theorem readsBack_neighbours (fine : (10 : ℚ) ^ k < 2 ^ (e - 2)) (up : Bool) :
    let d := ((Interval.around m e n).neighbours k).1
    ReadsBack m e n ((if up then d + 1 else d : ℕ) * 10 ^ k) := by
  intro d
  have pos : (0 : ℚ) < (Interval.around m e n).den := by exact_mod_cast around_den m e n
  obtain ⟨low, high⟩ := (Interval.around m e n).neighbours_spec (around_den m e n) k
  rw [around_value, mul_le_mul_iff_left₀ pos] at low
  rw [around_value, mul_lt_mul_iff_left₀ pos] at high
  cases up
  · refine .of_near ?_ ?_ <;> simp only [Bool.false_eq_true, if_false] <;> linarith
  · refine .of_near ?_ ?_ <;> simp only [if_true] <;> push_cast <;> linarith

theorem readsBack_refine (hm : 0 < m) {fuel : ℕ} (fine : (10 : ℚ) ^ (k - fuel) < 2 ^ (e - 2)) :
    let d := (Interval.around m e n).refine fuel k
    ReadsBack m e n (d.digits * 10 ^ d.exponent) := by
  induction fuel generalizing k with
  | zero => exact readsBack_neighbours (by simpa using fine) _
  | succ fuel ih =>
    rw [Interval.refine]
    split
    · rename_i hit
      exact .of_holds hm (holds_of_hit hit)
    · refine ih ?_
      rwa [Nat.cast_succ, add_comm, ← sub_sub] at fine

theorem strip_value (fuel : ℕ) (d : Digits) :
    ((d.strip fuel).digits : ℚ) * 10 ^ (d.strip fuel).exponent = d.digits * 10 ^ d.exponent := by
  induction fuel generalizing d with
  | zero => rfl
  | succ fuel ih =>
    rw [Digits.strip]
    split
    · rename_i zero
      have zero : d.digits % 10 = 0 := by simp at zero; exact zero.1
      rw [ih, zpow_add_one₀ (by norm_num)]
      have tens : (d.digits : ℚ) = (d.digits / 10 : ℕ) * 10 := by exact_mod_cast (Nat.div_mul_cancel (Nat.dvd_of_mod_eq_zero zero)).symm
      rw [tens]
      ring
    · rfl

end

/-! ### The leading exponent -/

theorem raiseExponent_le {num den : ℕ} {k : ℤ} (fuel : ℕ) (h : powerAtMost k num den = true) :
    powerAtMost (raiseExponent num den fuel k) num den = true := by
  induction fuel generalizing k with
  | zero => exact h
  | succ fuel ih =>
    rw [raiseExponent]
    split
    · exact ih ‹_›
    · exact h

/-- The estimate for the decimal exponent of a power of two is not too great. -/
theorem estimate_le {b : ℤ} (low : -1200 ≤ b) (high : b < 1200) : (10 : ℚ) ^ (b * 30103 / 100000 - 2) ≤ 2 ^ b := by
  -- `10 ^ 59` is just below `2 ^ 196`, and `10 ^ 146` just above `2 ^ 485`; three times
  -- the latter makes the exponent a natural number.
  obtain ⟨n, rfl⟩ : ∃ n : ℕ, b = n - 1455 := ⟨(b + 1455).toNat, by omega⟩
  obtain ⟨q, a, few, bits⟩ : ∃ q a : ℕ, ((n : ℤ) - 1455) * 30103 / 100000 - 2 ≤ 59 * q + 3 * a - 438 ∧
      196 * q + 10 * a ≤ n := ⟨n / 196, n % 196 / 10, by omega, by omega⟩
  calc (10 : ℚ) ^ (((n : ℤ) - 1455) * 30103 / 100000 - 2)
      ≤ 10 ^ ((59 * q + 3 * a : ℕ) - (146 * 3 : ℕ) : ℤ) := zpow_le_zpow_right₀ (by norm_num) (by push_cast; omega)
    _ = (10 ^ 59) ^ q * (10 ^ 3) ^ a / (10 ^ 146) ^ 3 := by
        rw [zpow_sub₀ (by norm_num), zpow_natCast, zpow_natCast, pow_add, pow_mul, pow_mul, pow_mul]
    _ ≤ (2 ^ 196) ^ q * (2 ^ 10) ^ a / (2 ^ 485) ^ 3 := by
        have above : (2 : ℚ) ^ 485 ≤ 10 ^ 146 := by exact_mod_cast (by decide +kernel : 2 ^ 485 ≤ 10 ^ 146)
        gcongr <;> norm_num
    _ = 2 ^ ((196 * q + 10 * a : ℕ) - (485 * 3 : ℕ) : ℤ) := by
        rw [zpow_sub₀ (by norm_num), zpow_natCast, zpow_natCast, pow_add, pow_mul, pow_mul, pow_mul]
    _ ≤ 2 ^ ((n : ℤ) - 1455) := zpow_le_zpow_right₀ (by norm_num) (by push_cast; omega)

/-- The leading exponent of a number is not too great, if the number is not out of all bounds. -/
theorem leadingExponent_le {num den : ℕ} (hn : 0 < num) (hd : 0 < den) (low : (2 : ℚ) ^ (-1100 : ℤ) * den ≤ num)
    (high : (num : ℚ) ≤ 2 ^ (1100 : ℤ) * den) : (10 : ℚ) ^ leadingExponent num den * den ≤ num := by
  have hd' : (0 : ℚ) < den := by exact_mod_cast hd
  have num_ge : (2 : ℚ) ^ (num.log2 : ℤ) ≤ num := by exact_mod_cast Nat.log2_self_le hn.ne'
  have num_lt : (num : ℚ) < 2 ^ (num.log2 + 1 : ℤ) := by exact_mod_cast (Nat.lt_log2_self : num < 2 ^ (num.log2 + 1))
  have den_ge : (2 : ℚ) ^ (den.log2 : ℤ) ≤ den := by exact_mod_cast Nat.log2_self_le hd.ne'
  have den_lt : (den : ℚ) < 2 ^ (den.log2 + 1 : ℤ) := by exact_mod_cast (Nat.lt_log2_self : den < 2 ^ (den.log2 + 1))
  have two : (1 : ℚ) < 2 := by norm_num
  have above : -1100 + (den.log2 : ℤ) < num.log2 + 1 := by
    rw [← zpow_lt_zpow_iff_right₀ two, zpow_add₀ (by norm_num)]
    calc (2 : ℚ) ^ (-1100 : ℤ) * 2 ^ (den.log2 : ℤ) ≤ 2 ^ (-1100 : ℤ) * den := by gcongr
      _ < 2 ^ (num.log2 + 1 : ℤ) := low.trans_lt num_lt
  have below : (num.log2 : ℤ) < 1100 + (den.log2 + 1) := by
    rw [← zpow_lt_zpow_iff_right₀ two, zpow_add₀ (by norm_num)]
    calc (2 : ℚ) ^ (num.log2 : ℤ) ≤ 2 ^ (1100 : ℤ) * den := num_ge.trans high
      _ < 2 ^ (1100 : ℤ) * 2 ^ (den.log2 + 1 : ℤ) := by gcongr
  rw [← powerAtMost_iff]
  refine raiseExponent_le 5 ((powerAtMost_iff _ _ _).mpr ?_)
  set b : ℤ := (num.log2 : ℤ) - den.log2 - 1 with hb
  calc (10 : ℚ) ^ (b * 30103 / 100000 - 2) * den ≤ 2 ^ b * 2 ^ (den.log2 + 1 : ℤ) := by
        gcongr
        exact estimate_le (by omega) (by omega)
    _ = 2 ^ (num.log2 : ℤ) := by
        rw [← zpow_add₀ (by norm_num)]
        congr 1
        omega
    _ ≤ num := num_ge

/-! ### The shortest digits -/

/-- The leading exponent of a float that is not out of all bounds is not too great. -/
theorem leading_le {m : ℕ} {e : ℤ} (n : Bool) (hm : 0 < m) (short : m < 2 ^ 53) (low : -1074 ≤ e) (high : e ≤ 971) :
    (10 : ℚ) ^ leadingExponent (Interval.around m e n).value (Interval.around m e n).den ≤ m * 2 ^ e := by
  have pos : (0 : ℚ) < (Interval.around m e n).den := by exact_mod_cast around_den m e n
  have value := around_value m e n
  have one : (1 : ℚ) ≤ m := by exact_mod_cast hm
  have most : (m : ℚ) < 2 ^ 53 := by exact_mod_cast short
  rw [← mul_le_mul_iff_left₀ pos, ← value]
  refine leadingExponent_le ?_ (around_den m e n) ?_ ?_
  · have : (0 : ℚ) < (Interval.around m e n).value := by rw [value]; positivity
    exact_mod_cast this
  · rw [value]
    gcongr
    calc (2 : ℚ) ^ (-1100 : ℤ) ≤ 1 * 2 ^ e := by
          rw [one_mul]
          exact zpow_le_zpow_right₀ (by norm_num) (by omega)
      _ ≤ m * 2 ^ e := by gcongr
  · rw [value]
    gcongr
    calc (m : ℚ) * 2 ^ e ≤ 2 ^ 53 * 2 ^ (971 : ℤ) := by
          gcongr
          norm_num
      _ = 2 ^ ((53 : ℕ) + 971 : ℤ) := by rw [zpow_add₀ (by norm_num), zpow_natCast]
      _ ≤ 2 ^ (1100 : ℤ) := zpow_le_zpow_right₀ (by norm_num) (by norm_num)

/-- A float that is not out of all bounds reads back from its digits. -/
theorem readsBack_shortest {m : ℕ} {e : ℤ} {n : Bool} (hm : 0 < m) (short : m < 2 ^ 53) (low : -1074 ≤ e)
    (high : e ≤ 971) : ReadsBack m e n ((shortest m e n).digits * 10 ^ (shortest m e n).exponent) := by
  rw [shortest, if_neg (by simpa using hm.ne')]
  dsimp only
  rw [strip_value]
  refine readsBack_refine hm ?_
  have most : (m : ℚ) < 2 ^ 53 := by exact_mod_cast short
  have unit := unit_pos (e - 2)
  have leading := leading_le n hm short low high
  generalize leadingExponent (Interval.around m e n).value (Interval.around m e n).den = k at leading ⊢
  calc (10 : ℚ) ^ (k - (17 : ℕ)) = 10 ^ k / 10 ^ 17 := by
        rw [zpow_sub₀ (by norm_num)]
        norm_cast
    _ ≤ m * 2 ^ e / 10 ^ 17 := by gcongr
    _ ≤ 2 ^ 53 * (4 * 2 ^ (e - 2)) / 10 ^ 17 := by
        rw [unit_eq e]
        gcongr
    _ < 2 ^ (e - 2) := by
        rw [div_lt_iff₀ (by norm_num)]
        linarith

theorem shortest_zero (e : ℤ) (n : Bool) : shortest 0 e n = ⟨0, 0⟩ := rfl

theorem ReadsBack.pos {m : ℕ} {e : ℤ} {n : Bool} {x : ℚ} (hm : 0 < m) (h : ReadsBack m e n x) : 0 < x := by
  have one : (1 : ℚ) ≤ m := by exact_mod_cast hm
  have := gap_le n
  have : (0 : ℚ) < 4 * m - gap n := by linarith
  exact (mul_pos this (unit_pos (e - 2))).trans_le h.low_le

/-- Floats of one width with the same digits are the same, up to their sign. -/
theorem eq_of_shortest {bits m m' : ℕ} {least e e' : ℤ} {n n' : Bool} (hbits : bits ≤ 52) (hleast : -1074 ≤ least)
    (h : Stored bits least m e n) (h' : Stored bits least m' e' n') (high : e ≤ 971) (high' : e' ≤ 971)
    (same : ((shortest m e n).digits : ℚ) * 10 ^ (shortest m e n).exponent =
      (shortest m' e' n').digits * 10 ^ (shortest m' e' n').exponent) : m = m' ∧ e = e' := by
  have wide : 2 ^ (bits + 1) ≤ 2 ^ 53 := Nat.pow_le_pow_right two_pos (by omega)
  have reads (hm : 0 < m) := readsBack_shortest (n := n) hm (h.short.trans_le wide) (hleast.trans h.low) high
  have reads' (hm : 0 < m') := readsBack_shortest (n := n') hm (h'.short.trans_le wide) (hleast.trans h'.low) high'
  obtain rfl | hm := Nat.eq_zero_or_pos m
  · obtain rfl | hm' := Nat.eq_zero_or_pos m'
    · exact ⟨rfl, (h.full.resolve_left (by simp)).trans (h'.full.resolve_left (by simp)).symm⟩
    · have := (reads' hm').pos hm'
      rw [← same, shortest_zero] at this
      simp at this
  · obtain rfl | hm' := Nat.eq_zero_or_pos m'
    · have := (reads hm).pos hm
      rw [same, shortest_zero] at this
      simp at this
    · exact (reads hm).unique h h' (same ▸ reads' hm')

end CodeAtlas.Decimal
