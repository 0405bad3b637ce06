import CodeAtlas.Decimal.Binary
import CodeAtlas.Proofs.Float.Arithmetic

/-! Floats of one width as floats of the other.

A number that has a place in a format is rounded to itself, in whatever form it is given
(`round_exact`). A number of single precision has one in double precision, so it comes
back unchanged (`narrow_widen`). -/
namespace CodeAtlas.Decimal
open Binary64
open Float.Model (Format UnpackedFloat totalExponent)
open Float.Model.UnpackedFloat

/-! ### Exact rounding -/

/-- Dropping bits that are zero loses nothing. -/
theorem shiftRight_exact (n k : ℕ) :
    ExtendedMantissa.ofMantissaAndAccuracy (n * 2 ^ k) .exact >>> k = .ofMantissaAndAccuracy n .exact := by
  change k.repeat ExtendedMantissa.shiftRightOne _ = _
  induction k generalizing n with
  | zero => simp [Nat.repeat]
  | succ k ih =>
    rw [Nat.repeat, pow_succ', ← mul_assoc, ih]
    simp [ExtendedMantissa.ofMantissaAndAccuracy, ExtendedMantissa.shiftRightOne]

theorem log2_add_eq {m n : ℕ} (hm : 0 < m) (hn : 0 < n) {e t : ℤ} (h : (m : ℚ) * 2 ^ e = n * 2 ^ t) :
    (m.log2 : ℤ) + e = n.log2 + t := by
  have bounds {a : ℕ} (ha : 0 < a) (k : ℤ) : (2 : ℚ) ^ (a.log2 + k : ℤ) ≤ a * 2 ^ k ∧ a * 2 ^ k < (2 : ℚ) ^ (a.log2 + 1 + k : ℤ) := by
    have low : ((2 ^ a.log2 : ℕ) : ℚ) ≤ a := by exact_mod_cast Nat.log2_self_le ha.ne'
    have high : (a : ℚ) < (2 ^ (a.log2 + 1) : ℕ) := by exact_mod_cast Nat.lt_log2_self
    rw [← natCast_two_pow_mul]
    have := natCast_two_pow_mul (a.log2 + 1) k
    push_cast at this
    rw [← this]
    have pos := two_zpow_pos k
    constructor
    · gcongr
    · gcongr
      exact_mod_cast high
  have one : (1 : ℚ) < 2 := by norm_num
  have first := (bounds hm e).1.trans_lt (h ▸ (bounds hn t).2)
  have second := (bounds hn t).1.trans_lt (h ▸ (bounds hm e).2)
  rw [zpow_lt_zpow_iff_right₀ one] at first second
  omega

/-- A number is rounded to the one that is stored for it, if there is one. -/
theorem round_exact {f : Format} (s : Sign) {m n : ℕ} {e t : ℤ} (hm : 0 < m) (hn : 0 < n)
    (stored : f.targetExponent (totalExponent n t) = t) (h : (m : ℚ) * 2 ^ e = n * 2 ^ t) :
    UnpackedFloat.round f s m e = .finite s n t hn := by
  have same {a : ℕ} (ha : 0 < a) {k : ℤ} (hv : (a : ℚ) * 2 ^ k = n * 2 ^ t) :
      f.targetExponent (totalExponent a k) = t := by
    rw [← stored, totalExponent, totalExponent]
    congr 1
    have := log2_add_eq ha hn hv
    omega
  have value := decreaseExponent_value m e t
  have low : (decreaseExponent m e t).2 ≤ t := by
    simp only [decreaseExponent]
    omega
  rw [UnpackedFloat.round, same hm h]
  generalize decreaseExponent m e t = d at value low
  obtain ⟨a, k⟩ := d
  obtain ⟨j, hj⟩ := Int.eq_ofNat_of_zero_le (sub_nonneg.2 low)
  obtain rfl : k = t - j := by dsimp only at hj; omega
  dsimp only at value ⊢
  rw [h] at value
  have ha : a = n * 2 ^ j := by
    have pos := two_zpow_pos (t - j)
    have whole : (a : ℚ) * 2 ^ (t - j) = (n * 2 ^ j : ℕ) * 2 ^ (t - j) := by
      rw [value, Nat.cast_mul, mul_assoc, natCast_two_pow_mul, add_sub_cancel]
    exact_mod_cast mul_right_cancel₀ pos.ne' whole
  have ha' : 0 < a := ha ▸ Nat.mul_pos hn (Nat.two_pow_pos j)
  have amount : (t - (t - j)).toNat = j := by omega
  have rounded : (ExtendedMantissa.ofMantissaAndAccuracy n .exact).roundedMantissa = n := rfl
  have kept : (ExtendedMantissa.ofMantissaAndAccuracy n .exact >>> 0).mantissa = n := rfl
  rw [roundWithAccuracy, shiftToTargetExponent, same ha' value, shiftToExponent, amount, ha, shiftRight_exact]
  simp only [rounded, sub_add_cancel, shiftToTargetExponent, stored, shiftToExponent, sub_self, Int.toNat_zero, kept]
  rw [dif_neg hn.ne']
  simp

/-! ### Single precision -/

/-- A mantissa and an exponent in the one form in which single precision stores them. -/
structure SingleDigits (m : ℕ) (e : ℤ) : Prop where
  short : m < 2 ^ 24
  low : -149 ≤ e
  full : 2 ^ 23 ≤ m ∨ e = -149
  fits : e ≤ 104

theorem singleDigits_unpack {b : BitVec Format.binary32.numBits} {s : Sign} {m : ℕ} {e : ℤ} {hm : 0 < m}
    (h : unpack .binary32 b = .finite s m e hm) : SingleDigits m e := by
  have mantissa : (unpackMantissa b).toNat < 2 ^ 23 := (unpackMantissa b).isLt
  have exponent : (unpackExponent b).toNat < 2 ^ 8 := (unpackExponent b).isLt
  have bias : (Format.binary32.exponentBias : ℤ) = 127 := rfl
  have width : Format.binary32.mantissaBitsWithoutImplicit = 23 := rfl
  rw [unpack] at h
  split at h
  · split at h <;> cases h
  · rename_i notAllOnes
    have top : (unpackExponent b).toNat ≠ 255 := fun h => notAllOnes (BitVec.eq_of_toNat_eq h)
    split at h
    · rename_i subnormal
      have none : (unpackExponent b).toNat = 0 := by rw [subnormal]; rfl
      split at h
      · cases h
      · injection h with _ hm he
        rw [none, bias, width] at he
        exact ⟨by omega, by omega, .inr (by omega), by omega⟩
    · rename_i normal
      have some : (unpackExponent b).toNat ≠ 0 := fun h => normal (BitVec.eq_of_toNat_eq h)
      injection h with _ hm he
      have hm : 2 ^ 23 + (unpackMantissa b).toNat = m := (toNat_one_append _).symm.trans hm
      rw [bias, width] at he
      exact ⟨by omega, by omega, .inl (by omega), by omega⟩

theorem SingleDigits.target {m : ℕ} {e : ℤ} (h : SingleDigits m e) (hm : 0 < m) :
    Format.binary32.targetExponent (totalExponent m e) = e := by
  have form (k : ℤ) : Format.binary32.targetExponent k = max (k - 24) (-149) := by
    simp only [Format.targetExponent, Format.mantissaBits, Format.minExponent]
    norm_num
  have short : m.log2 < 24 := (Nat.log2_lt hm.ne').2 h.short
  have low := h.low
  rw [form, totalExponent]
  obtain full | least := h.full
  · have := (Nat.le_log2 hm.ne').2 full
    omega
  · omega

/-- A number of single precision has its digits in double precision. -/
theorem SingleDigits.exists_digits {m : ℕ} {e : ℤ} (h : SingleDigits m e) (hm : 0 < m) :
    ∃ n t, 0 < n ∧ Binary64.Digits n t ∧ t ≤ 971 ∧ (m : ℚ) * 2 ^ e = n * 2 ^ t := by
  have short : m.log2 < 24 := (Nat.log2_lt hm.ne').2 h.short
  have low := h.low
  have fits := h.fits
  -- The mantissa is shifted until it is full.
  obtain ⟨k, hk⟩ := Nat.exists_eq_add_of_le (show m.log2 ≤ 52 by omega)
  have full : 2 ^ 52 ≤ m * 2 ^ k := by
    rw [hk, pow_add]
    exact Nat.mul_le_mul_right _ (Nat.log2_self_le hm.ne')
  have short : m * 2 ^ k < 2 ^ 53 := by
    rw [show 53 = m.log2 + 1 + k by omega, pow_add]
    exact Nat.mul_lt_mul_of_pos_right Nat.lt_log2_self (Nat.two_pow_pos k)
  refine ⟨m * 2 ^ k, e - k, by omega, ⟨short, by omega, .inl full⟩, by omega, ?_⟩
  rw [Nat.cast_mul, mul_assoc, natCast_two_pow_mul, add_sub_cancel]

/-! ### There and back -/

theorem ofModel_pack (x : Float32) : Float32.ofModel (.pack x.toModel.unpack) = x := by
  rw [← Float32.toBits_inj]
  exact UInt32.toBitVec_inj.mp (pack_unpack_of_valid x.toModel.valid)

theorem target_of_digits {n : ℕ} {t : ℤ} (d : Binary64.Digits n t) (hn : 0 < n) :
    Format.binary64.targetExponent (totalExponent n t) = t := by
  rw [target_eq]
  have short : n.log2 < 53 := (Nat.log2_lt hn.ne').2 d.short
  have low := d.low
  obtain full | least := d.full
  · have := (Nat.le_log2 hn.ne').2 full
    omega
  · omega

/-- The parts of a finite number of single precision, and those of the same number in double precision. -/
theorem parts_widen {x : Float32} {s : Sign} {m : ℕ} {e : ℤ} {hm : 0 < m} (h : x.toModel.unpack = .finite s m e hm) :
    ∃ n t hn, parts (widen x) = .finite s n t hn ∧ (m : ℚ) * 2 ^ e = n * 2 ^ t := by
  obtain ⟨n, t, hn, d, fits, value⟩ := (singleDigits_unpack h).exists_digits hm
  refine ⟨n, t, hn, ?_, value⟩
  rw [widen, h]
  dsimp only
  rw [round_exact s hm hn (target_of_digits d hn) value]
  exact unpack_pack_fits s hn d fits

theorem finite_cases {x : Float32} (h : x.isFinite = true) :
    (∃ s, x.toModel.unpack = .zero s) ∨ ∃ s m e hm, x.toModel.unpack = .finite s m e hm := by
  change x.toModel.unpack.isFinite = true at h
  cases hx : x.toModel.unpack with
  | infinity s => rw [hx] at h; contradiction
  | notANumber => rw [hx] at h; contradiction
  | zero s => exact .inl ⟨s, rfl⟩
  | finite s m e hm => exact .inr ⟨s, m, e, hm, rfl⟩

theorem parts_widen_zero {x : Float32} {s : Sign} (h : x.toModel.unpack = .zero s) : parts (widen x) = .zero s := by
  rw [widen, h]
  cases s <;> rfl

theorem isFinite_widen {x : Float32} (h : x.isFinite = true) : (widen x).isFinite = true := by
  rw [isFinite_eq]
  obtain ⟨s, hx⟩ | ⟨s, m, e, hm, hx⟩ := finite_cases h
  · rw [parts_widen_zero hx]
    rfl
  · obtain ⟨n, t, hn, hparts, -⟩ := parts_widen hx
    rw [hparts]
    rfl

/-- A finite number of single precision is the same after a stay in double precision. -/
theorem narrow_widen {x : Float32} (h : x.isFinite = true) : narrow (widen x) = x := by
  obtain ⟨s, hx⟩ | ⟨s, m, e, hm, hx⟩ := finite_cases h
  · have hparts : (widen x).toModel.unpack = .zero s := parts_widen_zero hx
    rw [narrow, hparts]
    dsimp only
    rw [← hx, ofModel_pack]
  · obtain ⟨n, t, hn, hparts, value⟩ := parts_widen hx
    change (widen x).toModel.unpack = _ at hparts
    rw [narrow, hparts]
    dsimp only
    rw [round_exact s hn hm ((singleDigits_unpack hx).target hm) value.symm, ← hx, ofModel_pack]

end CodeAtlas.Decimal
