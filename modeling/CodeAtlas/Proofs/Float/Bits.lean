import CodeAtlas.Proofs.Float.Order

/-! The bits of floats that are not negative.

Read as a whole number, the bits of a size count the sizes below it (`toNat_toBits`): one
more mantissa is one more bit pattern, and after the last mantissa of an exponent comes the
first of the next. So sizes are in the order of their bits (`toNat_toBits_le_iff`). Whole
numbers are sizes, and so are products and quotients of finite ones. -/
namespace CodeAtlas.Binary64
open Float.Model (Format UnpackedFloat)
open Float.Model.UnpackedFloat

section
variable {x y : Float}

/-! ### Bits -/

/-- The place of a size among all of them. -/
def place : UnpackedFloat → ℤ
  | .infinity _ => 2047 * 2 ^ 52
  | .notANumber => 0
  | .zero _ => 0
  | .finite _ m e _ => (e + 1074) * 2 ^ 52 + m

theorem toNat_fields (b : BitVec Format.binary64.numBits) :
    b.toNat = (unpackSign b).toNat * 2 ^ 63 + (unpackExponent b).toNat * 2 ^ 52 + (unpackMantissa b).toNat := by
  have bound : b.toNat < 2 ^ 64 := b.isLt
  have sign : (unpackSign b).toNat = b.toNat / 2 ^ 63 % 2 := by
    change (b.toNat >>> 63) % 2 = _
    rw [Nat.shiftRight_eq_div_pow]
  have exponent : (unpackExponent b).toNat = b.toNat / 2 ^ 52 % 2 ^ 11 := by
    change (b.toNat >>> 52) % 2 ^ 11 = _
    rw [Nat.shiftRight_eq_div_pow]
  have mantissa : (unpackMantissa b).toNat = b.toNat % 2 ^ 52 := rfl
  omega

theorem toNat_of_positive {s : BitVec 1} (h : Sign.ofBitVec s = .positive) : s.toNat = 0 := by
  unfold Sign.ofBitVec at h
  split at h
  · rename_i zero
    rw [zero]
    rfl
  · contradiction

/-- The exponent and the mantissa lie side by side, and the first bit of a full mantissa counts
as one exponent more. -/
theorem toNat_eq_place (b : BitVec Format.binary64.numBits) (h : IsPositive (unpack .binary64 b)) :
    (b.toNat : ℤ) = place (unpack .binary64 b) := by
  have bias : (Format.binary64.exponentBias : ℤ) = 1023 := rfl
  have width : (Format.binary64.mantissaBitsWithoutImplicit : ℤ) = 52 := rfl
  rw [toNat_fields b]
  rw [unpack] at h ⊢
  split at h
  · rename_i top
    rw [if_pos top]
    split at h
    · rename_i none
      rw [if_pos none, toNat_of_positive h, top, none]
      rfl
    · exact h.elim
  · rename_i notTop
    rw [if_neg notTop]
    split at h
    · rename_i low
      rw [if_pos low]
      split at h
      · rename_i none
        rw [dif_pos none, toNat_of_positive h, low, none]
        rfl
      · rename_i some
        rw [dif_neg some, toNat_of_positive h, low]
        simp [place, bias]
    · rename_i some
      rw [if_neg some, toNat_of_positive h]
      simp only [place, toNat_one_append, bias, width]
      push_cast
      omega

theorem toNat_toBits (h : IsSize x) : (x.toBits.toNat : ℤ) = place (parts x) :=
  toNat_eq_place x.toBits.toBitVec h

/-- Greater digits have a greater place: those of a greater exponent are full. -/
theorem place_lt_place {m n : ℕ} {e f : ℤ} {hm : 0 < m} {hn : 0 < n} (d : Digits m e) (d' : Digits n f)
    (lt : (m : ℚ) * 2 ^ e < n * 2 ^ f) : place (.finite .positive m e hm) < place (.finite .positive n f hn) := by
  simp only [place]
  obtain less | rfl | more := lt_trichotomy e f
  · have short := d.short
    have full := d'.full
    have low := d.low
    omega
  · have order : m < n := by exact_mod_cast lt_of_mul_lt_mul_right lt (two_zpow_pos e).le
    omega
  · exact absurd lt (d'.lt_of_exponent_lt d more).not_gt

/-- What is finite is placed between zero and what is infinite. -/
theorem place_bounds {m : ℕ} {e : ℤ} {hm : 0 < m} (d : Digits m e) (fits : e ≤ 971) :
    0 < place (.finite .positive m e hm) ∧ place (.finite .positive m e hm) < place (.infinity .positive) := by
  have short := d.short
  have low := d.low
  simp only [place]
  omega

theorem toNat_toBits_lt (hx : IsSize x) (hy : IsSize y) (lt : value x < value y) :
    x.toBits.toNat < y.toBits.toNat := by
  have cx := canonical_parts x
  have cy := canonical_parts y
  have fx := fits_parts x
  have fy := fits_parts y
  have top := limit_pos
  suffices h : place (parts x) < place (parts y) by
    rw [← toNat_toBits hx, ← toNat_toBits hy] at h
    exact_mod_cast h
  obtain ⟨px, vx⟩ | ⟨px, vx⟩ | ⟨m, e, hm, px, lowx, highx⟩ := hx.cases
  · have := (abs_le.mp (abs_value_le_limit y)).2
    linarith
  · obtain ⟨py, vy⟩ | ⟨py, vy⟩ | ⟨n, f, hn, py, lowy, highy⟩ := hy.cases
    · rw [px, py]
      norm_num [place]
    · linarith
    · rw [py] at cy fy
      rw [px, py]
      exact (place_bounds cy fy).1
  · rw [px] at cx fx
    obtain ⟨py, vy⟩ | ⟨py, vy⟩ | ⟨n, f, hn, py, lowy, highy⟩ := hy.cases
    · rw [px, py]
      exact (place_bounds cx fx).2
    · linarith
    · rw [py] at cy
      rw [value, value, px, py] at lt
      simp only [toRat, unit, one_mul] at lt
      rw [px, py]
      exact place_lt_place cx cy lt

/-- Floats that are not negative are in the order of their bits. -/
theorem toNat_toBits_le_iff (hx : IsSize x) (hy : IsSize y) : x.toBits.toNat ≤ y.toBits.toNat ↔ x ≤ y := by
  rw [le_iff hx.number hy.number]
  refine ⟨fun h => ?_, fun h => ?_⟩
  · by_contra greater
    exact (toNat_toBits_lt hy hx (not_le.mp greater)).not_ge h
  · obtain same | less := h.eq_or_lt
    · rw [hx.eq_of_value hy same]
    · exact (toNat_toBits_lt hx hy less).le

end

/-! ### Sizes out of whole numbers -/

section
variable {a b : UnpackedFloat}

theorem isPositive_mul (fa : a.isFinite = true) (fb : b.isFinite = true) (ha : IsPositive a) (hb : IsPositive b)
    (ca : Canonical a) (cb : Canonical b) : Canonical (mul .binary64 a b) ∧ IsPositive (mul .binary64 a b) := by
  refine ⟨(nearest_mul fa fb ca cb).canonical, ?_⟩
  cases a with
  | infinity s => contradiction
  | notANumber => contradiction
  | zero s =>
    obtain rfl : s = .positive := ha
    cases b with
    | infinity t => contradiction
    | notANumber => contradiction
    | zero t => exact congrArg (Sign.positive * ·) hb
    | finite t n f hn => exact congrArg (Sign.positive * ·) hb
  | finite s m e hm =>
    obtain rfl : s = .positive := ha
    cases b with
    | infinity t => contradiction
    | notANumber => contradiction
    | zero t => exact congrArg (Sign.positive * ·) hb
    | finite t n f hn =>
      obtain rfl : t = .positive := hb
      exact isPositive_roundWithAccuracy _ _ _

theorem isPositive_div (fa : a.isFinite = true) (fb : b.isFinite = true) (ha : IsPositive a) (hb : IsPositive b)
    (nonzero : toRat b ≠ 0) (ca : Canonical a) (cb : Canonical b) :
    Canonical (div .binary64 a b) ∧ IsPositive (div .binary64 a b) := by
  refine ⟨(nearest_div fa fb ca cb nonzero).canonical, ?_⟩
  cases b with
  | infinity t => contradiction
  | notANumber => contradiction
  | zero t => exact absurd rfl nonzero
  | finite t n f hn =>
    obtain rfl : t = .positive := hb
    cases a with
    | infinity s => contradiction
    | notANumber => contradiction
    | zero s => exact congrArg (· / Sign.positive) ha
    | finite s m e hm =>
      obtain rfl : s = .positive := ha
      exact isPositive_roundWithAccuracy _ _ _

end

section
variable {x y : Float}

theorem IsSize.mul (hx : IsSize x) (hy : IsSize y) (fx : x.isFinite = true) (fy : y.isFinite = true) :
    IsSize (x * y) :=
  isSize_pack (isPositive_mul fx fy hx hy (canonical_parts x) (canonical_parts y))

theorem IsSize.div (hx : IsSize x) (hy : IsSize y) (fx : x.isFinite = true) (fy : y.isFinite = true)
    (nonzero : value y ≠ 0) : IsSize (x / y) :=
  isSize_pack (isPositive_div fx fy hx hy nonzero (canonical_parts x) (canonical_parts y))

theorem isSize_toFloat (n : UInt64) : IsSize n.toFloat :=
  isSize_pack ⟨(nearest_normalize n.toNat 0 .positive).canonical, isPositive_normalize (Int.natCast_nonneg _) 0⟩

theorem isPositive_ofScientific (n : ℕ) (e : ℤ) : IsPositive (UnpackedFloat.ofScientific .binary64 n e) := by
  unfold UnpackedFloat.ofScientific
  repeat' split
  all_goals first | rfl | exact isPositive_roundWithAccuracy _ _ _

theorem isSize_ofNat (n : ℕ) : IsSize (Float.ofNat n) := by
  change IsSize (Float.ofScientific n false 0)
  unfold Float.ofScientific
  split
  · have one : IsSize (Float.ofBits 4607182418800017408) := rfl
    have finite : (Float.ofBits 4607182418800017408).isFinite = true := by decide +kernel
    exact (isSize_toFloat _).mul one ((isRounding_toFloat _).isFinite_of_natCast (UInt64.toNat_lt _)) finite
  · rename_i large
    exact isSize_pack ⟨(nearest_large (by omega)).canonical, isPositive_ofScientific n 0⟩

end

end CodeAtlas.Binary64
