import CodeAtlas.Proofs.Float.Arithmetic

/-! Whole numbers as floats.

A whole number is rounded like any exact number, whichever way it is turned into a float
(`exists_nearest_ofNat`). So one of up to 53 bits is not changed, and one of up to 64 bits
is finite. -/
namespace CodeAtlas.Binary64
open Float.Model Float.Model.UnpackedFloat

theorem isRounding_toFloat (n : UInt64) : IsRounding n.toNat n.toFloat := by
  have rounded := (nearest_normalize n.toNat 0 .positive).rounded
  rw [zpow_zero, mul_one] at rounded
  exact_mod_cast rounded.isRounding

theorem onGrid_natCast {n : ℕ} (h : n < 2 ^ 53) : OnGrid n := by
  simpa using onGrid_mul_two_zpow (e := 0) h (by norm_num)

theorem natCast_lt_limit {n : ℕ} (h : n < 2 ^ 64) : |(n : ℚ)| < limit := by
  have cast : (n : ℚ) < 2 ^ (64 : ℤ) := by exact_mod_cast h
  rw [abs_of_nonneg (Nat.cast_nonneg n)]
  exact cast.trans_le (two_zpow_le_limit (by norm_num))

/-- What rounds a number of up to 64 bits is finite. -/
theorem IsRounding.isFinite_of_natCast {n : ℕ} {x : Float} (h : IsRounding n x) (hn : n < 2 ^ 64) :
    x.isFinite = true := by
  have cast : (n : ℚ) ≤ 2 ^ (64 : ℤ) := by exact_mod_cast hn.le
  refine h.isFinite (onGrid_two_zpow (k := 64) (by norm_num)) ?_ (by rwa [abs_of_nonneg (Nat.cast_nonneg n)])
  rw [limit_eq]
  exact zpow_lt_zpow_right₀ (by norm_num) (by norm_num)

/-- A number below `2 ^ 53` is turned into a float and multiplied by one. -/
theorem nearest_small {n : ℕ} (h : n < 2 ^ 53) :
    Nearest (n : ℚ) (mul .binary64 (parts n.toUInt64.toFloat) (parts (Float.ofBits 4607182418800017408))) := by
  have size : n.toUInt64.toNat = n := by simpa using Nat.mod_eq_of_lt (by omega : n < 2 ^ 64)
  have rounding := isRounding_toFloat n.toUInt64
  rw [size] at rounding
  have finite := rounding.isFinite_of_natCast (by omega)
  have same := rounding.value_eq (onGrid_natCast h) (natCast_lt_limit (by omega)).le
  have one : value (Float.ofBits 4607182418800017408) = 1 := by
    have stored : parts (Float.ofBits 4607182418800017408) = .finite .positive (2 ^ 52) (-52) (by norm_num) := rfl
    rw [value, stored]
    norm_num [toRat, unit]
  have product := nearest_mul (a := parts n.toUInt64.toFloat) (b := parts (Float.ofBits 4607182418800017408)) finite
    (by decide +kernel) (canonical_parts _) (canonical_parts _)
  rwa [← value, ← value, same, one, mul_one] at product

/-- A number from `2 ^ 53` on is rounded at once. -/
theorem nearest_large {n : ℕ} (pos : 0 < n) : Nearest (n : ℚ) (UnpackedFloat.ofScientific .binary64 n 0) := by
  have shifted : (53 : ℤ) ≤ ((n <<< 53 : ℕ).log2 : ℤ) := by
    have := log2_add_le pos 53
    omega
  have width : ((n <<< 53 * 1 : ℕ) : ℚ) * 2 ^ (-53 : ℤ) = n := by
    rw [Nat.shiftLeft_eq]
    push_cast
    rw [mul_one, mul_assoc]
    norm_num
  have exact : Residue (.ofMantissaAndAccuracy (n <<< 53 * 1) .exact) ((n <<< 53 * 1 : ℕ) : ℚ) := by
    rw [Rat.cast_natCast]
    exact residue_exact _
  have rounded := nearest_of_rational (e := -53) .positive exact (by rw [mul_one]; omega)
  rw [width, show unit .positive = 1 from rfl, one_mul] at rounded
  have stored : UnpackedFloat.ofScientific .binary64 n 0 =
      roundWithAccuracy .binary64 .positive (n <<< 53 * 1) (-53) .exact := by
    have range : (0 : ℤ) ≤ 2 ^ Format.binary64.exponentBits := by positivity
    rw [UnpackedFloat.ofScientific, dif_neg pos.ne', if_neg (by norm_num), if_neg (by omega), if_pos le_rfl]
    rfl
  exact stored ▸ rounded

/-- The float of a whole number is the nearest one, and too great a number is infinite. -/
theorem exists_nearest_ofNat (n : ℕ) : ∃ u, Float.ofNat n = .ofModel (.pack u) ∧ Nearest (n : ℚ) u := by
  change ∃ u, Float.ofScientific n false 0 = _ ∧ _
  unfold Float.ofScientific
  split
  · rename_i small
    exact ⟨_, rfl, nearest_small small.1⟩
  · rename_i large
    exact ⟨_, rfl, nearest_large (by omega)⟩

theorem isRounding_ofNat (n : ℕ) : IsRounding n (Float.ofNat n) := by
  obtain ⟨u, stored, nearest⟩ := exists_nearest_ofNat n
  exact stored ▸ nearest.rounded.isRounding

theorem value_ofNat {n : ℕ} (h : n < 2 ^ 53) : value (Float.ofNat n) = n :=
  (isRounding_ofNat n).value_eq (onGrid_natCast h) (natCast_lt_limit (by omega)).le

theorem isFinite_ofNat {n : ℕ} (h : n < 2 ^ 64) : (Float.ofNat n).isFinite = true :=
  (isRounding_ofNat n).isFinite_of_natCast h

/-- A number has the parts of its negative, but for the sign. -/
theorem isFinite_negative {x : Float} (h : x.isFinite = true) : x.neg.isFinite = true := by
  rw [isFinite_eq] at h ⊢
  change (unpack .binary64 (pack .binary64 (parts x).neg)).isFinite = true
  have canonical := canonical_parts x
  have fits := fits_parts x
  cases hx : parts x with
  | infinity s => rw [hx] at h; contradiction
  | notANumber => rw [hx] at h; contradiction
  | zero s => cases s <;> rfl
  | finite s m e hm =>
    rw [hx] at canonical fits
    rw [show (UnpackedFloat.finite s m e hm).neg = .finite (-s) m e hm from rfl,
      unpack_pack_fits (-s) hm canonical fits]
    rfl

theorem isFinite_ofInt {n : ℤ} (low : -2 ^ 63 ≤ n) (high : n < 2 ^ 64) : (Float.ofInt n).isFinite = true := by
  cases n with
  | ofNat n => exact isFinite_ofNat (by simpa using high)
  | negSucc n =>
    have size : n.succ < 2 ^ 64 := by omega
    exact isFinite_negative (isFinite_ofNat size)

end CodeAtlas.Binary64
