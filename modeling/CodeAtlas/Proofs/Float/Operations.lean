import CodeAtlas.Proofs.Float.Rounding

/-! Arithmetic of binary64, measured on exact numbers.

A sum and a product are computed exactly and then rounded. A dividend and a radicand are
first shifted far enough for a full mantissa (`quotient_exponent`, `root_exponent`), and
the remainder tells the residual bits (`residue_fraction`, `residue_sqrt`). So each result
is the nearest number of the format.

Main theorems: `nearest_add`, `nearest_sub`, `nearest_mul`, `nearest_div` and `nearest_sqrt`. -/
namespace CodeAtlas.Binary64
open Float.Model (Format UnpackedFloat totalExponent)
open Float.Model.UnpackedFloat

/-! ### Signs -/

@[simp] theorem toRat_neg (u : UnpackedFloat) : toRat u.neg = -toRat u := by
  cases u <;> simp [neg, toRat]

theorem Canonical.neg {u : UnpackedFloat} (h : Canonical u) : Canonical u.neg := by
  cases u <;> exact h

@[simp] theorem isFinite_neg (u : UnpackedFloat) : u.neg.isFinite = u.isFinite := by
  cases u <;> rfl

theorem sub_eq_add (a b : UnpackedFloat) : sub .binary64 a b = add .binary64 a b.neg := by
  have apply_neg (s : Sign) (m : ℤ) : (-s).apply m = -s.apply m := by
    cases s
    · exact (neg_neg m).symm
    · rfl
  cases a <;> cases b <;> simp [sub, add, neg, apply_neg, Int.sub_eq_add_neg]

/-! ### Exponents -/

/-- The product of two stored mantissas has bits enough. -/
theorem product_exponent {m n : ℕ} {e f : ℤ} (hm : 0 < m) (hn : 0 < n) (d : Digits m e) (d' : Digits n f) :
    e + f ≤ max ((m * n).log2 + (e + f) - 52) (-1074) := by
  obtain full | short := le_or_gt (2 ^ 52) (m * n)
  · have := (Nat.le_log2 (Nat.mul_pos hm hn).ne').2 full
    omega
  · have he : e = -1074 := d.full.resolve_left (by have := Nat.le_mul_of_pos_right m hn; omega)
    have hf : f = -1074 := d'.full.resolve_left (by have := Nat.le_mul_of_pos_left n hm; omega)
    omega

/-- The dividend is shifted far enough for the quotient to have bits enough. -/
theorem quotient_exponent {m n : ℕ} (hm : 0 < m) (hn : 0 < n) {e f t : ℤ}
    (ht : t = min (e - f) (max (m.log2 - n.log2 + (e - f) - 53) (-1074))) :
    t ≤ max (((m <<< (e - f - t).toNat) / n).log2 + t - 52) (-1074) := by
  obtain low | high := le_or_gt t (-1074)
  · omega
  · have bits : 53 + n.log2 ≤ (m <<< (e - f - t).toNat).log2 := by
      have := log2_add_le hm (e - f - t).toNat
      omega
    have full : 2 ^ 52 ≤ m <<< (e - f - t).toNat / n := by
      rw [Nat.le_div_iff_mul_le hn]
      calc 2 ^ 52 * n ≤ 2 ^ 52 * 2 ^ (n.log2 + 1) := by gcongr; exact Nat.lt_log2_self.le
        _ = 2 ^ (53 + n.log2) := by ring
        _ ≤ _ := (Nat.le_log2 (by simp [Nat.shiftLeft_eq]; omega)).1 bits
    have := (Nat.le_log2 (by omega)).2 full
    omega

/-- The radicand is shifted far enough for the root to have bits enough. -/
theorem root_exponent {m : ℕ} (hm : 0 < m) {e t : ℤ}
    (ht : t = min (e.ediv 2) (max ((m.log2 + 1 + e + 1).ediv 2 - 53) (-1074))) :
    t ≤ max ((m <<< (e - 2 * t).toNat).sqrt.log2 + t - 52) (-1074) := by
  obtain low | high := le_or_gt t (-1074)
  · omega
  · have twice : 2 * (e.ediv 2) ≤ e := by have := Int.mul_ediv_self_le (x := e) (k := 2) two_ne_zero; exact this
    have bound : 2 * ((m.log2 + 1 + e + 1 : ℤ).ediv 2) ≤ m.log2 + 1 + e + 1 := Int.mul_ediv_self_le two_ne_zero
    have bits : 104 ≤ (m <<< (e - 2 * t).toNat).log2 := by
      have := log2_add_le hm (e - 2 * t).toNat
      omega
    have full : 2 ^ 52 ≤ (m <<< (e - 2 * t).toNat).sqrt := by
      rw [Nat.le_sqrt]
      calc 2 ^ 52 * 2 ^ 52 = 2 ^ 104 := by norm_num
        _ ≤ _ := (Nat.le_log2 (by simp [Nat.shiftLeft_eq]; omega)).1 bits
    have := (Nat.le_log2 (by omega)).2 full
    omega

/-! ### Remainders -/

/-- The remainder of a division tells on which side of the middle the quotient lies. -/
theorem residue_fraction (m : ℕ) {d : ℕ} (hd : 0 < d) :
    Residue (.ofMantissaAndAccuracy (m / d) (accuracyOfFraction (m % d) d)) (m / d : ℚ) := by
  have pos : (0 : ℝ) < d := by exact_mod_cast hd
  have quotient : ((m / d : ℚ) : ℝ) = (m / d : ℕ) + (m % d : ℕ) / d := by
    have split : (m : ℝ) = (m / d : ℕ) * d + (m % d : ℕ) := by exact_mod_cast (Nat.div_add_mod' m d).symm
    push_cast
    rw [div_eq_iff pos.ne', add_mul, div_mul_cancel₀ _ pos.ne']
    exact split
  have rest := Nat.mod_lt m hd
  rw [quotient]
  generalize m / d = q
  generalize m % d = r at rest
  unfold accuracyOfFraction
  split
  · rename_i none
    rw [none, Nat.cast_zero, zero_div, add_zero]
    exact residue_exact q
  · rename_i some
    have order : compare (2 * r) d = compare ((q : ℝ) + r / d) (q + 1 / 2) := by
      obtain less | half | more := lt_trichotomy (2 * r) d
      · rw [Nat.compare_eq_lt.mpr less, eq_comm, compare_lt_iff_lt, add_lt_add_iff_left, div_lt_div_iff₀ pos two_pos]
        exact_mod_cast (by omega : r * 2 < 1 * d)
      · rw [Nat.compare_eq_eq.mpr half, eq_comm, compare_eq_iff_eq, add_right_inj, div_eq_div_iff pos.ne' two_ne_zero]
        exact_mod_cast (by omega : r * 2 = 1 * d)
      · rw [Nat.compare_eq_gt.mpr more, eq_comm, compare_gt_iff_gt, add_lt_add_iff_left,
          div_lt_div_iff₀ two_pos pos]
        exact_mod_cast (by omega : 1 * d < r * 2)
    rw [order]
    refine residue_inexact ?_ ?_
    · have : (0 : ℝ) < r / d := div_pos (by exact_mod_cast Nat.pos_of_ne_zero some) pos
      linarith
    · have : (r : ℝ) / d < 1 := (div_lt_one pos).mpr (by exact_mod_cast rest)
      linarith

/-- What is left over by a square root tells on which side of the middle it lies. -/
theorem residue_sqrt (m : ℕ) :
    Residue (.ofMantissaAndAccuracy m.sqrt
      (if m - m.sqrt * m.sqrt = 0 then .exact
        else .inexact (if m - m.sqrt * m.sqrt ≤ m.sqrt then .lt else .gt))) (√m) := by
  have low : m.sqrt * m.sqrt ≤ m := m.sqrt_le
  have below : (m.sqrt : ℝ) ≤ √m := Real.nat_sqrt_le_real_sqrt
  have above : √m < m.sqrt + 1 := by
    rw [Real.sqrt_lt' (by positivity)]
    exact_mod_cast m.lt_succ_sqrt'
  have root : √(m : ℝ) ^ 2 = m := Real.sq_sqrt m.cast_nonneg
  have rest : ((m - m.sqrt * m.sqrt : ℕ) : ℝ) = √m ^ 2 - m.sqrt ^ 2 := by
    rw [Nat.cast_sub low, Nat.cast_mul, root, sq]
  have nonneg : (0 : ℝ) ≤ m.sqrt := Nat.cast_nonneg _
  generalize m - m.sqrt * m.sqrt = rem at rest
  generalize √(m : ℝ) = x at below above rest
  generalize m.sqrt = r at below above rest nonneg
  split
  · rename_i none
    have whole : x = r := by
      rw [none, Nat.cast_zero] at rest
      nlinarith
    rw [whole]
    exact residue_exact r
  · rename_i some
    have pos : (1 : ℝ) ≤ rem := by exact_mod_cast Nat.one_le_iff_ne_zero.mpr some
    have more : r < x := by
      refine lt_of_le_of_ne below ?_
      rintro rfl
      linarith
    have order : (if rem ≤ r then Ordering.lt else .gt) = compare x (r + 1 / 2) := by
      split
      · rename_i lower
        have lower : (rem : ℝ) ≤ r := by exact_mod_cast lower
        rw [eq_comm, compare_lt_iff_lt]
        nlinarith
      · rename_i upper
        have upper : (r : ℝ) + 1 ≤ rem := by exact_mod_cast Nat.lt_of_not_le upper
        rw [eq_comm, compare_gt_iff_gt]
        nlinarith
    rw [order]
    exact residue_inexact more above

/-! ### Results -/

section
variable {a b : UnpackedFloat} (ha : a.isFinite = true) (hb : b.isFinite = true)
  (ca : Canonical a) (cb : Canonical b)
include ha hb ca cb

theorem nearest_add : Nearest (toRat a + toRat b : ℚ) (add .binary64 a b) := by
  cases a with
  | infinity => contradiction
  | notANumber => contradiction
  | zero s =>
    cases b with
    | infinity => contradiction
    | notANumber => contradiction
    | zero t =>
      simp only [toRat, add, add_zero]
      split <;> exact nearest_zero _
    | finite t n f hn => simpa [toRat, add] using nearest_self hb cb
  | finite s m e hm =>
    cases b with
    | infinity => contradiction
    | notANumber => contradiction
    | zero t => simpa [toRat, add] using nearest_self ha ca
    | finite t n f hn =>
      have hv := decreaseExponent_value m e (min e f)
      have hw := decreaseExponent_value n f (min e f)
      rw [decreaseExponent_snd (min_le_left e f)] at hv
      rw [decreaseExponent_snd (min_le_right e f)] at hw
      have sum := nearest_normalize
        (s.apply (decreaseExponent m e (min e f)).1 + t.apply (decreaseExponent n f (min e f)).1)
        (min e f) .positive
      simp only [Int.cast_add, apply_eq, Int.cast_natCast, add_mul, mul_assoc, hv, hw] at sum
      exact sum

theorem nearest_sub : Nearest (toRat a - toRat b : ℚ) (sub .binary64 a b) := by
  have sum := nearest_add ha (b := b.neg) (by simpa using hb) ca cb.neg
  rwa [toRat_neg, ← sub_eq_add, ← sub_eq_add_neg] at sum

theorem nearest_mul : Nearest (toRat a * toRat b : ℚ) (mul .binary64 a b) := by
  cases a with
  | infinity => contradiction
  | notANumber => contradiction
  | zero s =>
    cases b with
    | infinity => contradiction
    | notANumber => contradiction
    | zero t => simpa [toRat, mul] using nearest_zero _
    | finite t n f hn => simpa [toRat, mul] using nearest_zero _
  | finite s m e hm =>
    cases b with
    | infinity => contradiction
    | notANumber => contradiction
    | zero t => simpa [toRat, mul] using nearest_zero _
    | finite t n f hn =>
      have exact : Residue (.ofMantissaAndAccuracy (m * n) .exact) ((m * n : ℕ) : ℚ) := by
        rw [Rat.cast_natCast]
        exact residue_exact (m * n)
      have product := nearest_of_rational (s * t) exact (product_exponent hm hn ca cb)
      have value : unit (s * t) * (((m * n : ℕ) : ℚ) * 2 ^ (e + f)) =
          unit s * (m * 2 ^ e) * (unit t * (n * 2 ^ f)) := by
        rw [unit_mul, two_zpow_add]
        push_cast
        ring
      exact value ▸ product

theorem nearest_div (nonzero : toRat b ≠ 0) : Nearest (toRat a / toRat b : ℚ) (div .binary64 a b) := by
  cases b with
  | infinity => contradiction
  | notANumber => contradiction
  | zero t => exact absurd rfl nonzero
  | finite t n f hn =>
    cases a with
    | infinity => contradiction
    | notANumber => contradiction
    | zero s => simpa [toRat, div] using nearest_zero (s / t)
    | finite s m e hm =>
      have target : Format.binary64.targetExponent (totalExponent m e - totalExponent n f) =
          max (m.log2 - n.log2 + (e - f) - 53) (-1074) := by
        rw [targetExponent_eq, totalExponent, totalExponent]
        omega
      simp only [div, divCore, target]
      set d := min (e - f) (max (m.log2 - n.log2 + (e - f) - 53) (-1074)) with hd
      have quotient := nearest_of_rational (s / t) (residue_fraction (m <<< (e - f - d).toNat) hn)
        (quotient_exponent hm hn hd)
      have shifted := decreaseExponent_value m (e - f) d
      have kept : (decreaseExponent m (e - f) d).2 = d := decreaseExponent_snd (by omega)
      rw [kept] at shifted
      have value : unit (s / t) * ((m <<< (e - f - d).toNat : ℕ) / n * 2 ^ d) =
          toRat (.finite s m e hm) / toRat (.finite t n f hn) := by
        have scaled : ((m <<< (e - f - d).toNat : ℕ) : ℚ) * 2 ^ d = m * (2 ^ e / 2 ^ f) := by
          rw [← zpow_sub₀ (by norm_num)]
          exact shifted
        have sign : unit t ^ 2 = 1 := by obtain h | h := unit_cases t <;> norm_num [h]
        have hn' : (n : ℚ) ≠ 0 := by exact_mod_cast hn.ne'
        have hf := (two_zpow_pos f).ne'
        have ht : unit t ≠ 0 := by obtain h | h := unit_cases t <;> norm_num [h]
        rw [unit_div, div_mul_eq_mul_div, scaled]
        simp only [toRat]
        field_simp
        rw [sign, mul_one]
      exact value ▸ quotient

end

theorem nearest_sqrt {m : ℕ} {e : ℤ} (hm : 0 < m) :
    Nearest (√(toRat (.finite .positive m e hm) : ℝ)) (UnpackedFloat.sqrt .binary64 (.finite .positive m e hm)) := by
  have target : Format.binary64.targetExponent ((totalExponent m e + 1).ediv 2) =
      max ((m.log2 + 1 + e + 1 : ℤ).ediv 2 - 53) (-1074) := by
    rw [targetExponent_eq, totalExponent]
  simp only [UnpackedFloat.sqrt, sqrtCore, target]
  set t := min (e.ediv 2) (max ((m.log2 + 1 + e + 1 : ℤ).ediv 2 - 53) (-1074)) with ht
  have root := nearest_roundWithAccuracy .positive (residue_sqrt (m <<< (e - 2 * t).toNat)) (root_exponent hm ht)
  have shifted : ((m <<< (e - 2 * t).toNat : ℕ) : ℝ) * (2 ^ t) ^ 2 = m * 2 ^ e := by
    have twice : 2 * (e.ediv 2) ≤ e := Int.mul_ediv_self_le two_ne_zero
    rw [Nat.shiftLeft_eq, Nat.cast_mul, Nat.cast_pow, Nat.cast_ofNat, ← zpow_natCast, mul_assoc, ← zpow_natCast,
      ← zpow_mul, ← zpow_add₀ two_ne_zero]
    congr 2
    push_cast
    omega
  have value : (unit .positive : ℝ) * (√((m <<< (e - 2 * t).toNat : ℕ) : ℝ) * 2 ^ t) =
      √(toRat (.finite .positive m e hm) : ℝ) := by
    have pos : (0 : ℝ) ≤ 2 ^ t := (zpow_pos two_pos t).le
    simp only [toRat, unit, Rat.cast_one, one_mul]
    push_cast
    rw [← shifted, Real.sqrt_mul (Nat.cast_nonneg _), Real.sqrt_sq pos]
  exact value ▸ root

end CodeAtlas.Binary64
