import CodeAtlas.Proofs.Float.Integers

/-! What a few roundings change.

One rounding changes an amount that is neither tiny nor too great by at most one part in
`2 ^ 52` (`IsRounding.approx`). Sums and products keep count of the roundings, so what
comes out of a short calculation is its exact result up to so many parts. -/
namespace CodeAtlas.Binary64

/-- A number is an amount up to some roundings. -/
structure Approx (roundings : ℕ) (exact q : ℚ) : Prop where
  low : exact * (1 - 1 / 2 ^ 52) ^ roundings ≤ q
  high : q ≤ exact * (1 + 1 / 2 ^ 52) ^ roundings

/-- An amount that is rounded by a part of itself. -/
def Ordinary (q : ℚ) : Prop := q = 0 ∨ 2 ^ (-200 : ℤ) ≤ q ∧ q ≤ 2 ^ (200 : ℤ)

namespace Approx

variable {k l : ℕ} {p q r v w : ℚ}

theorem nonneg (h : Approx k q v) (hq : 0 ≤ q) : 0 ≤ v :=
  (mul_nonneg hq (by norm_num)).trans h.low

theorem mono (h : Approx k q v) (hq : 0 ≤ q) (le : k ≤ l) : Approx l q v where
  low := (mul_le_mul_of_nonneg_left (pow_le_pow_of_le_one (by norm_num) (by norm_num) le) hq).trans h.low
  high := h.high.trans (mul_le_mul_of_nonneg_left (pow_le_pow_right₀ (by norm_num) le) hq)

theorem trans (h : Approx k p q) (h' : Approx l q r) : Approx (k + l) p r where
  low := by
    rw [pow_add, ← mul_assoc]
    exact (mul_le_mul_of_nonneg_right h.low (by norm_num)).trans h'.low
  high := by
    rw [pow_add, ← mul_assoc]
    exact h'.high.trans (mul_le_mul_of_nonneg_right h.high (by positivity))

theorem add (h : Approx k p v) (h' : Approx k q w) : Approx k (p + q) (v + w) where
  low := by rw [add_mul]; exact add_le_add h.low h'.low
  high := by rw [add_mul]; exact add_le_add h.high h'.high

theorem mul (h : Approx k p v) (h' : Approx l q w) (hp : 0 ≤ p) (hq : 0 ≤ q) : Approx (k + l) (p * q) (v * w) where
  low := by
    rw [pow_add, mul_mul_mul_comm]
    exact mul_le_mul h.low h'.low (mul_nonneg hq (by norm_num)) (h.nonneg hp)
  high := by
    rw [pow_add, mul_mul_mul_comm]
    exact mul_le_mul h.high h'.high (h'.nonneg hq) (by positivity)

theorem div (h : Approx k p v) (hr : 0 < r) : Approx k (p / r) (v / r) where
  low := by rw [div_mul_eq_mul_div]; exact div_le_div_of_nonneg_right h.low hr.le
  high := by rw [div_mul_eq_mul_div]; exact div_le_div_of_nonneg_right h.high hr.le

/-- A few roundings of so many thousandths do not leave the range. -/
theorem ordinary {n : ℕ} (h : Approx k (n / 1000) v) (few : k ≤ 8) (hn : n < 2 ^ 128) : Ordinary v := by
  obtain rfl | some := n.eq_zero_or_pos
  · have below := h.high
    rw [Nat.cast_zero, zero_div, zero_mul] at below
    exact .inl (le_antisymm below (h.nonneg (by norm_num)))
  · have low : (1 : ℚ) ≤ n := by exact_mod_cast some
    have high : (n : ℚ) < 2 ^ 128 := by exact_mod_cast hn
    have wide := h.mono (by positivity) few
    refine .inr ⟨?_, ?_⟩
    · have factor : (1 / 2 : ℚ) ≤ (1 - 1 / 2 ^ 52) ^ 8 := by norm_num
      calc (2 : ℚ) ^ (-200 : ℤ) ≤ 1 / 1000 * (1 / 2) := by norm_num
        _ ≤ n / 1000 * (1 - 1 / 2 ^ 52) ^ 8 := by gcongr
        _ ≤ v := wide.low
    · have factor : (1 + 1 / 2 ^ 52 : ℚ) ^ 8 ≤ 2 := by norm_num
      calc v ≤ n / 1000 * (1 + 1 / 2 ^ 52) ^ 8 := wide.high
        _ ≤ 2 ^ 128 / 1000 * 2 := by gcongr
        _ ≤ 2 ^ (200 : ℤ) := by norm_num

end Approx

theorem IsRounding.approx {q : ℚ} {x : Float} (h : IsRounding q x) (ordinary : Ordinary q) :
    Approx 1 q (value x) := by
  obtain rfl | ⟨low, high⟩ := ordinary
  · have := h.value_eq onGrid_zero (by rw [abs_zero]; exact limit_pos.le)
    constructor <;> simp [this]
  · have pos : 0 < q := (two_zpow_pos _).trans_le low
    obtain ⟨k, hlow, hhigh⟩ := exists_mem_Ico_zpow pos (one_lt_two : (1 : ℚ) < 2)
    have above : -200 < k + 1 := (zpow_lt_zpow_iff_right₀ (one_lt_two : (1 : ℚ) < 2)).mp (low.trans_lt hhigh)
    have below : k ≤ 200 := (zpow_le_zpow_iff_right₀ (one_lt_two : (1 : ℚ) < 2)).mp (hlow.trans high)
    have near := h.abs_sub_le (k := k + 1) (by omega) (by omega) (by rw [abs_of_pos pos]; exact hhigh.le)
    -- the last bit of a mantissa is a part of the power of two below the number
    have part : (2 : ℚ) ^ (k + 1 - 53) ≤ q * (1 / 2 ^ 52) := by
      rw [show k + 1 - 53 = k + (-52) by ring, two_zpow_add, zpow_neg]
      exact mul_le_mul hlow (by norm_num) (by positivity) pos.le
    obtain ⟨down, up⟩ := abs_le.mp (near.trans part)
    constructor <;> rw [pow_one] <;> linarith

theorem ordinary_natCast {n : ℕ} (h : n < 2 ^ 64) : Ordinary n := by
  obtain rfl | pos := n.eq_zero_or_pos
  · exact .inl Nat.cast_zero
  · have cast : (n : ℚ) < 2 ^ 64 := by exact_mod_cast h
    have one : (1 : ℚ) ≤ n := by exact_mod_cast pos
    exact .inr ⟨le_trans (by norm_num) one, cast.le.trans (by norm_num)⟩

theorem IsRounding.isFinite_of_ordinary {q : ℚ} {x : Float} (h : IsRounding q x) (ordinary : Ordinary q) :
    x.isFinite = true := by
  have within : |q| ≤ 2 ^ (200 : ℤ) := by
    obtain rfl | ⟨low, high⟩ := ordinary
    · rw [abs_zero]
      exact (two_zpow_pos _).le
    · rwa [abs_of_pos ((two_zpow_pos _).trans_le low)]
  refine h.isFinite (onGrid_two_zpow (by norm_num)) ?_ within
  rw [limit_eq]
  exact zpow_lt_zpow_right₀ (by norm_num) (by norm_num)

end CodeAtlas.Binary64
