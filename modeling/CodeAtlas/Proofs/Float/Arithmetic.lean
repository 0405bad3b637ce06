import CodeAtlas.Geometry.Scalar
import CodeAtlas.Proofs.Float.Operations

/-! Bounds of floating-point arithmetic.

A float is read as the exact number it stands for, the infinities as the first
power of two beyond the finite numbers. An operation on finite floats then gives a
float that rounds the exact result (`IsRounding`), overflow included: it never
crosses a number that the format can hold. What is not finite stays so under
addition, subtraction of something finite and multiplication. -/
namespace CodeAtlas.Binary64
open Float.Model (Format UnpackedFloat)
open Float.Model.UnpackedFloat

/-! ### Packing -/

/-- The exponents that fit. -/
def Fits : UnpackedFloat → Prop
  | .finite _ _ e _ => e ≤ 971
  | _ => True

theorem toNat_one_append {w : ℕ} (v : BitVec w) : (1#1 ++ v).toNat = 2 ^ w + v.toNat := by
  rw [BitVec.toNat_append, ← Nat.shiftLeft_add_eq_or_of_lt v.isLt]
  simp [Nat.shiftLeft_eq]

theorem canonical_unpack (b : BitVec Format.binary64.numBits) :
    Canonical (unpack .binary64 b) ∧ Fits (unpack .binary64 b) := by
  have mantissa : (unpackMantissa b).toNat < 2 ^ 52 := (unpackMantissa b).isLt
  have exponent : (unpackExponent b).toNat < 2 ^ 11 := (unpackExponent b).isLt
  have bias : (Format.binary64.exponentBias : ℤ) = 1023 := rfl
  rw [unpack]
  split
  · split <;> exact ⟨trivial, trivial⟩
  · rename_i notAllOnes
    have top : (unpackExponent b).toNat ≠ 2047 := fun h => notAllOnes (BitVec.eq_of_toNat_eq h)
    split
    · rename_i subnormal
      split
      · exact ⟨trivial, trivial⟩
      · have none : (unpackExponent b).toNat = 0 := by rw [subnormal]; rfl
        simp only [Canonical, Fits, none, bias]
        exact ⟨⟨by omega, by norm_num, .inr (by norm_num)⟩, by norm_num⟩
    · rename_i normal
      have some : (unpackExponent b).toNat ≠ 0 := fun h => normal (BitVec.eq_of_toNat_eq h)
      simp only [Canonical, Fits, toNat_one_append, bias]
      push_cast
      exact ⟨⟨by omega, by omega, .inl (by omega)⟩, by omega⟩

theorem sign_packComponents (s : Sign) (e : BitVec 11) (m : BitVec 52) :
    Sign.ofBitVec (unpackSign (packComponents .binary64 s e m)) = s := by
  rw [unpackSign_packComponents, Sign.ofBitVec_toBitVec]

theorem unpack_normal (s : Sign) {m : ℕ} {e : ℤ} (hm : 0 < m) {x : BitVec 11} {v : BitVec 52}
    (hx : (x.toNat : ℤ) = e + 1075) (h₀ : x.toNat ≠ 0) (h₁ : x.toNat ≠ 2047) (hv : 2 ^ 52 + v.toNat = m) :
    unpack .binary64 (packComponents .binary64 s x v) = .finite s m e hm := by
  have notZero : x ≠ 0#11 := by rintro rfl; exact h₀ rfl
  have notTop : x ≠ -1#11 := by rintro rfl; exact h₁ rfl
  have bias : (Format.binary64.exponentBias : ℤ) = 1023 := rfl
  rw [unpack]
  simp only [unpackMantissa_packComponents, unpackExponent_packComponents, sign_packComponents,
    if_neg notTop, if_neg notZero, toNat_one_append, hv, hx, bias]
  congr 1
  push_cast
  omega

theorem unpack_subnormal (s : Sign) {m : ℕ} (hm : 0 < m) {v : BitVec 52} (hv : v.toNat = m) :
    unpack .binary64 (packComponents .binary64 s 0#11 v) = .finite s m (-1074) hm := by
  have notZero : v ≠ 0#52 := by rintro rfl; exact hm.ne hv
  have notTop : 0#11 ≠ -1#11 := by decide
  rw [unpack]
  simp only [unpackMantissa_packComponents, unpackExponent_packComponents, sign_packComponents,
    if_neg notTop, dif_neg notZero, hv]
  rfl

theorem packed_exponent (e : ℤ) :
    (e + Format.binary64.exponentBias + Format.binary64.mantissaBitsWithoutImplicit).toNat =
      (e + 1075).toNat := by
  have : (Format.binary64.exponentBias : ℤ) = 1023 := rfl
  have : (Format.binary64.mantissaBitsWithoutImplicit : ℤ) = 52 := rfl
  omega

/-- What fits is read again as it was stored. -/
theorem unpack_pack_fits (s : Sign) {m : ℕ} {e : ℤ} (hm : 0 < m) (d : Digits m e) (he : e ≤ 971) :
    unpack .binary64 (pack .binary64 (.finite s m e hm)) = .finite s m e hm := by
  have low := d.low
  have short := d.short
  have bits := Nat.log2_eq_iff (k := 52) hm.ne'
  have mantissa : (BitVec.ofNat 52 m).toNat = m % 2 ^ 52 := BitVec.toNat_ofNat m 52
  have width : Format.binary64.mantissaBits = 52 + 1 := rfl
  unfold pack
  dsimp only
  rw [packed_exponent, width, if_neg (by omega)]
  obtain normal | subnormal := le_or_gt (2 ^ 52) m
  · have exponent : (BitVec.ofNat 11 (e + 1075).toNat).toNat = (e + 1075).toNat := by
      rw [BitVec.toNat_ofNat, Nat.mod_eq_of_lt (by omega)]
    rw [if_pos (congrArg (· + 1) (bits.2 ⟨normal, short⟩))]
    exact unpack_normal s hm (by omega) (by omega) (by omega) (by omega)
  · obtain rfl : e = -1074 := d.full.resolve_left (by omega)
    rw [if_neg (by omega)]
    exact unpack_subnormal s hm (by omega)

/-- What has too great an exponent is stored as infinite. -/
theorem unpack_pack_overflow (s : Sign) {m : ℕ} {e : ℤ} (hm : 0 < m) (he : 971 < e) :
    unpack .binary64 (pack .binary64 (.finite s m e hm)) = .infinity s := by
  unfold pack
  dsimp only
  rw [packed_exponent, if_pos (by have : (2 : ℕ) ^ Format.binary64.exponentBits = 2048 := rfl; omega)]
  cases s <;> rfl

/-! ### Floats as numbers -/

def parts (x : Float) : UnpackedFloat := x.toModel.unpack

def value (x : Float) : ℚ := toRat (parts x)

theorem isFinite_eq (x : Float) : x.isFinite = (parts x).isFinite := rfl

theorem isNaN_eq (x : Float) : x.isNaN = (parts x).isNaN := rfl

theorem canonical_parts (x : Float) : Canonical (parts x) := (canonical_unpack _).1

theorem fits_parts (x : Float) : Fits (parts x) := (canonical_unpack _).2

theorem onGrid_value (x : Float) : OnGrid (value x) := onGrid_toRat (canonical_parts x)

theorem isNaN_of_isFinite {x : Float} (h : x.isFinite = true) : x.isNaN = false := by
  rw [isFinite_eq] at h
  rw [isNaN_eq]
  cases hx : parts x <;> simp_all [UnpackedFloat.isFinite, UnpackedFloat.isNaN]

theorem magnitude_lt_limit {m : ℕ} {e : ℤ} (d : Digits m e) (he : e ≤ 971) : (m : ℚ) * 2 ^ e < limit := by
  have short : (m : ℚ) < 2 ^ (53 : ℤ) := by exact_mod_cast d.short
  calc (m : ℚ) * 2 ^ e < 2 ^ (53 : ℤ) * 2 ^ e := mul_lt_mul_of_pos_right short (two_zpow_pos e)
    _ = 2 ^ (53 + e) := (two_zpow_add 53 e).symm
    _ ≤ limit := two_zpow_le_limit (by omega)

theorem limit_le_magnitude {m : ℕ} {e : ℤ} (d : Digits m e) (he : 971 < e) : limit ≤ (m : ℚ) * 2 ^ e := by
  have full : (2 : ℚ) ^ (52 : ℤ) ≤ m := by exact_mod_cast d.full.resolve_right (by omega)
  calc limit = 2 ^ (1024 : ℤ) := limit_eq
    _ ≤ 2 ^ (52 + e) := zpow_le_zpow_right₀ (by norm_num) (by omega)
    _ = 2 ^ (52 : ℤ) * 2 ^ e := two_zpow_add 52 e
    _ ≤ m * 2 ^ e := mul_le_mul_of_nonneg_right full (two_zpow_pos e).le

theorem abs_toRat_finite (s : Sign) {m : ℕ} {e : ℤ} (hm : 0 < m) :
    |toRat (.finite s m e hm)| = m * 2 ^ e := by
  have nonneg : (0 : ℚ) ≤ m * 2 ^ e := by have := two_zpow_pos e; positivity
  cases s <;> simp only [toRat, unit, one_mul, neg_one_mul, abs_neg, abs_of_nonneg nonneg]

/-- Finite numbers are below the limit. -/
theorem abs_toRat_lt {u : UnpackedFloat} (h : u.isFinite = true) (canonical : Canonical u) (fits : Fits u) :
    |toRat u| < limit := by
  cases u with
  | infinity s => contradiction
  | notANumber => contradiction
  | zero s => simpa [toRat] using limit_pos
  | finite s m e hm =>
    rw [abs_toRat_finite]
    exact magnitude_lt_limit canonical fits

theorem abs_value_lt {x : Float} (h : x.isFinite = true) : |value x| < limit :=
  abs_toRat_lt h (canonical_parts x) (fits_parts x)

theorem isFinite_of_abs_lt {x : Float} (number : x.isNaN = false) (h : |value x| < limit) :
    x.isFinite = true := by
  rw [isNaN_eq] at number
  rw [isFinite_eq]
  unfold value at h
  cases hx : parts x with
  | infinity s =>
    rw [hx] at h
    cases s <;> simp [toRat, unit, abs_of_pos limit_pos] at h
  | notANumber => rw [hx] at number; contradiction
  | zero s => rfl
  | finite s m e hm => rfl

/-! ### Rounded results -/

/-- A float rounds an exact number: it is a number, and nothing the format holds
lies between the two. -/
structure IsRounding (q : ℚ) (x : Float) : Prop where
  number : x.isNaN = false
  le_of_le : ∀ {F}, OnGrid F → -limit ≤ F → q ≤ F → value x ≤ F
  le_of_ge : ∀ {F}, OnGrid F → F ≤ limit → F ≤ q → F ≤ value x

theorem Rounded.isRounding {q : ℚ} {u : UnpackedFloat} (h : Rounded q u) :
    IsRounding q (.ofModel (.pack u)) := by
  have canonical := h.canonical
  have finite := h.finite
  cases u with
  | infinity s => contradiction
  | notANumber => contradiction
  | zero s =>
    have stored : parts (.ofModel (.pack (.zero s))) = .zero s := by cases s <;> rfl
    refine ⟨by rw [isNaN_eq, stored]; rfl, ?_, ?_⟩
    · exact fun hF _ le => by rw [value, stored]; exact h.le_of_le hF le
    · exact fun hF _ le => by rw [value, stored]; exact h.le_of_ge hF le
  | finite s m e hm =>
    obtain fits | beyond := le_or_gt e 971
    · have stored : parts (.ofModel (.pack (.finite s m e hm))) = .finite s m e hm :=
        unpack_pack_fits s hm canonical fits
      refine ⟨by rw [isNaN_eq, stored]; rfl, ?_, ?_⟩
      · exact fun hF _ le => by rw [value, stored]; exact h.le_of_le hF le
      · exact fun hF _ le => by rw [value, stored]; exact h.le_of_ge hF le
    · have stored : parts (.ofModel (.pack (.finite s m e hm))) = .infinity s :=
        unpack_pack_overflow s hm beyond
      have large := limit_le_magnitude canonical beyond
      refine ⟨by rw [isNaN_eq, stored]; rfl, fun {F} hF low le => ?_, fun {F} hF high le => ?_⟩
      all_goals rw [value, stored]
      · have := h.le_of_le hF le
        cases s <;> simp only [toRat, unit] at this ⊢ <;> linarith
      · have := h.le_of_ge hF le
        cases s <;> simp only [toRat, unit] at this ⊢ <;> linarith

section
variable {x y : Float} (hx : x.isFinite = true) (hy : y.isFinite = true)
include hx hy

theorem isRounding_add : IsRounding (value x + value y) (x + y) :=
  (nearest_add hx hy (canonical_parts x) (canonical_parts y)).rounded.isRounding

theorem isRounding_sub : IsRounding (value x - value y) (x - y) :=
  (nearest_sub hx hy (canonical_parts x) (canonical_parts y)).rounded.isRounding

theorem isRounding_mul : IsRounding (value x * value y) (x * y) :=
  (nearest_mul hx hy (canonical_parts x) (canonical_parts y)).rounded.isRounding

theorem isRounding_div (nonzero : value y ≠ 0) : IsRounding (value x / value y) (x / y) :=
  (nearest_div hx hy (canonical_parts x) (canonical_parts y) nonzero).rounded.isRounding

end

/-- What is bounded by a number that the format holds is rounded within that bound. -/
theorem IsRounding.abs_value_le {q F : ℚ} {x : Float} (h : IsRounding q x) (hF : OnGrid F) (hq : |q| ≤ F) :
    |value x| ≤ F := by
  obtain ⟨lower, upper⟩ := abs_le.1 hq
  have nonneg : 0 ≤ F := (abs_nonneg q).trans hq
  have := limit_pos
  exact abs_le.2 ⟨h.le_of_ge hF.neg (by linarith) lower, h.le_of_le hF (by linarith) upper⟩

theorem IsRounding.isFinite {q F : ℚ} {x : Float} (h : IsRounding q x) (hF : OnGrid F) (lt : F < limit)
    (hq : |q| ≤ F) : x.isFinite = true :=
  isFinite_of_abs_lt h.number ((h.abs_value_le hF hq).trans_lt lt)

/-- A finite result is not beyond any number of the grid that the exact one is not beyond. -/
theorem IsRounding.value_le {q F : ℚ} {x : Float} (h : IsRounding q x) (hx : x.isFinite = true)
    (hF : OnGrid F) (le : q ≤ F) : value x ≤ F := by
  obtain within | beyond := le_or_gt (-limit) F
  · exact h.le_of_le hF within le
  · have := h.le_of_le onGrid_limit.neg le_rfl (by linarith)
    have := (abs_lt.1 (abs_value_lt hx)).1
    linarith

theorem IsRounding.le_value {q F : ℚ} {x : Float} (h : IsRounding q x) (hx : x.isFinite = true)
    (hF : OnGrid F) (le : F ≤ q) : F ≤ value x := by
  obtain within | beyond := le_or_gt F limit
  · exact h.le_of_ge hF within le
  · have := h.le_of_ge onGrid_limit le_rfl (by linarith)
    have := (abs_lt.1 (abs_value_lt hx)).2
    linarith

/-- What is rounded to less than a number of the grid is not beyond that number. -/
theorem IsRounding.le_of_value_lt {q F : ℚ} {x : Float} (h : IsRounding q x) (hF : OnGrid F)
    (within : F ≤ limit) (lt : value x < F) : q ≤ F := by
  by_contra beyond
  exact (h.le_of_ge hF within (not_le.1 beyond).le).not_gt lt

/-- A number that the format holds is not changed. -/
theorem IsRounding.value_eq {q : ℚ} {x : Float} (h : IsRounding q x) (hq : OnGrid q) (within : |q| ≤ limit) :
    value x = q := by
  obtain ⟨low, high⟩ := abs_le.1 within
  exact le_antisymm (h.le_of_le hq low le_rfl) (h.le_of_ge hq high le_rfl)

/-- What is within a power of two is rounded by at most the last of its 53 bits. -/
theorem IsRounding.abs_sub_le {q : ℚ} {x : Float} {k : ℤ} (h : IsRounding q x) (low : -1021 ≤ k) (high : k ≤ 1024)
    (hq : |q| ≤ 2 ^ k) : |value x - q| ≤ 2 ^ (k - 53) := by
  obtain ⟨a, b, ha, hb, within_a, within_b, le, ge, near⟩ := exists_grid_around low hq
  have limited := two_zpow_le_limit high
  have from_a := h.le_of_ge ha ((le_abs_self a).trans (within_a.trans limited)) le
  have to_b := h.le_of_le hb (by linarith [neg_le_abs b]) ge
  exact abs_le.2 ⟨by linarith, by linarith⟩

/-- Whatever stays below the limit is finite, within its bound and next to the exact number. -/
theorem IsRounding.within {q : ℚ} {x : Float} {k : ℤ} (h : IsRounding q x) (low : -1021 ≤ k) (high : k < 1024)
    (hq : |q| ≤ 2 ^ k) : x.isFinite = true ∧ |value x| ≤ 2 ^ k ∧ |value x - q| ≤ 2 ^ (k - 53) := by
  have grid : OnGrid (2 ^ k) := onGrid_two_zpow (by omega)
  refine ⟨h.isFinite grid ?_ hq, h.abs_value_le grid hq, h.abs_sub_le low high.le hq⟩
  rw [limit_eq]
  exact zpow_lt_zpow_right₀ (by norm_num) high

/-! ### What is not finite -/

theorem not_finite_pack {u : UnpackedFloat} (h : u.isFinite = false) :
    (Float.ofModel (.pack u)).isFinite = false := by
  cases u with
  | infinity s => cases s <;> rfl
  | notANumber => rfl
  | zero s => contradiction
  | finite s m e hm => contradiction

section
variable {x y : Float}

theorem not_finite_add_left (hx : x.isFinite = false) (hy : y.isFinite = true) :
    (x + y).isFinite = false := by
  refine not_finite_pack (u := add .binary64 (parts x) (parts y)) ?_
  rw [isFinite_eq] at hx hy
  cases hx' : parts x <;> cases hy' : parts y <;> simp_all [UnpackedFloat.isFinite, add]

theorem not_finite_sub_right (hx : x.isFinite = true) (hy : y.isFinite = false) :
    (x - y).isFinite = false := by
  refine not_finite_pack (u := sub .binary64 (parts x) (parts y)) ?_
  rw [isFinite_eq] at hx hy
  cases hx' : parts x <;> cases hy' : parts y <;> simp_all [UnpackedFloat.isFinite, sub]

theorem not_finite_mul_left (hx : x.isFinite = false) (y : Float) : (x * y).isFinite = false := by
  refine not_finite_pack (u := mul .binary64 (parts x) (parts y)) ?_
  rw [isFinite_eq] at hx
  cases hx' : parts x <;> cases hy' : parts y <;> simp_all [UnpackedFloat.isFinite, mul]

theorem not_finite_mul_right (x : Float) (hy : y.isFinite = false) : (x * y).isFinite = false := by
  refine not_finite_pack (u := mul .binary64 (parts x) (parts y)) ?_
  rw [isFinite_eq] at hy
  cases hx' : parts x <;> cases hy' : parts y <;> simp_all [UnpackedFloat.isFinite, mul]

theorem not_finite_div_left (hx : x.isFinite = false) (hy : y.isFinite = true) :
    (x / y).isFinite = false := by
  refine not_finite_pack (u := div .binary64 (parts x) (parts y)) ?_
  rw [isFinite_eq] at hx hy
  cases hx' : parts x <;> cases hy' : parts y <;> simp_all [UnpackedFloat.isFinite, div]

/-- A finite number less an infinity of positive sign is as low as can be. -/
theorem value_sub_infinite (hx : x.isFinite = true) (number : y.isNaN = false) (hy : y.isFinite = false)
    (nonneg : 0 ≤ value y) : (x - y).isNaN = false ∧ value (x - y) = -limit := by
  have difference : parts (x - y) = parts (.ofModel (.pack (sub .binary64 (parts x) (parts y)))) := rfl
  have infinite : parts (.ofModel (.pack (.infinity .negative))) = .infinity .negative := rfl
  have top := limit_pos
  rw [isNaN_eq] at number ⊢
  rw [isFinite_eq] at hx hy
  unfold value at nonneg ⊢
  cases hy' : parts y with
  | infinity s =>
    rw [hy'] at nonneg
    have positive : s = .positive := by
      cases s
      · simp only [toRat, unit] at nonneg
        linarith
      · rfl
    have negative : sub .binary64 (parts x) (.infinity .positive) = .infinity .negative := by
      cases hx' : parts x <;> simp_all [UnpackedFloat.isFinite, sub] <;> rfl
    rw [difference, hy', positive, negative, infinite]
    exact ⟨rfl, by simp only [toRat, unit, neg_one_mul]⟩
  | notANumber => rw [hy'] at number; contradiction
  | zero s => rw [hy'] at hy; contradiction
  | finite s m e hm => rw [hy'] at hy; contradiction

/-- A finite number divided by an infinite one is zero. -/
theorem value_div_infinite (hx : x.isFinite = true) (number : y.isNaN = false) (hy : y.isFinite = false) :
    (x / y).isNaN = false ∧ value (x / y) = 0 := by
  rw [isNaN_eq] at number ⊢
  have zero (s : Sign) : parts (.ofModel (.pack (.zero s))) = .zero s := by cases s <;> rfl
  have quotient : parts (x / y) = parts (.ofModel (.pack (div .binary64 (parts x) (parts y)))) := rfl
  rw [isFinite_eq] at hx hy
  cases hx' : parts x <;> cases hy' : parts y <;>
    simp_all [UnpackedFloat.isFinite, UnpackedFloat.isNaN, div, value, toRat]

end

/-! ### Order -/

/-- Stored digits are compared by exponent first. -/
theorem compare_digits {m n : ℕ} {e f : ℤ} (d : Digits m e) (d' : Digits n f) :
    (compare e f).then (compare m n) = compare ((m : ℚ) * 2 ^ e) (n * 2 ^ f) := by
  obtain lt | rfl | gt := lt_trichotomy e f
  · rw [compare_lt_iff_lt.2 lt, compare_lt_iff_lt.2 (d.lt_of_exponent_lt d' lt)]
    rfl
  · have pos := two_zpow_pos e
    have same : compare ((m : ℚ) * 2 ^ e) (n * 2 ^ e) = compare m n := by
      obtain lt | rfl | gt := lt_trichotomy m n
      · rw [compare_lt_iff_lt.2 lt, compare_lt_iff_lt]
        gcongr
      · simp
      · rw [compare_gt_iff_gt.2 gt, compare_gt_iff_gt]
        gcongr
    simp [same]
  · rw [compare_gt_iff_gt.2 gt, compare_gt_iff_gt.2 (d'.lt_of_exponent_lt d gt)]
    rfl

theorem toRat_positive {m : ℕ} {e : ℤ} (hm : 0 < m) : 0 < toRat (.finite .positive m e hm) := by
  have := two_zpow_pos e
  have hm' : (0 : ℚ) < m := by exact_mod_cast hm
  simp only [toRat, unit]
  positivity

theorem toRat_negative {m : ℕ} {e : ℤ} (hm : 0 < m) : toRat (.finite .negative m e hm) < 0 := by
  have := toRat_positive (e := e) hm
  simp only [toRat, unit] at this ⊢
  linarith

theorem toRat_infinity (s : Sign) : toRat (.infinity s) = unit s * limit := rfl

/-- Finite numbers lie between the infinities. -/
theorem toRat_between {u : UnpackedFloat} (hu : u.isFinite = true) (cu : Canonical u) (fu : Fits u) :
    toRat (.infinity .negative) < toRat u ∧ toRat u < toRat (.infinity .positive) := by
  obtain ⟨lower, upper⟩ := abs_lt.1 (abs_toRat_lt hu cu fu)
  simp only [toRat_infinity, unit]
  constructor <;> linarith

section
variable {p q : ℚ}

theorem some_lt (h : p < q) : some .lt = some (compare p q) := by rw [compare_lt_iff_lt.2 h]

theorem some_gt (h : q < p) : some .gt = some (compare p q) := by rw [compare_gt_iff_gt.2 h]

theorem some_eq (p : ℚ) : some .eq = some (compare p p) := by rw [compare_eq_iff_eq.2 rfl]

theorem swap_compare_neg (p q : ℚ) : (compare p q).swap = compare (-p) (-q) := by
  obtain lt | rfl | gt := lt_trichotomy p q
  · rw [compare_lt_iff_lt.2 lt, compare_gt_iff_gt.2 (neg_lt_neg lt)]
    rfl
  · rw [compare_eq_iff_eq.2 rfl, compare_eq_iff_eq.2 rfl]
    rfl
  · rw [compare_gt_iff_gt.2 gt, compare_lt_iff_lt.2 (neg_lt_neg gt)]
    rfl

end

/-- Of two numbers with digits, the signs decide first, and then the digits as seen from zero. -/
theorem compare_finite {s t : Sign} {m n : ℕ} {e f : ℤ} {hm : 0 < m} {hn : 0 < n}
    (ca : Canonical (.finite s m e hm)) (cb : Canonical (.finite t n f hn)) :
    (UnpackedFloat.finite s m e hm).compare (.finite t n f hn) =
      some (compare (toRat (.finite s m e hm)) (toRat (.finite t n f hn))) := by
  cases s <;> cases t
  · change some ((compare e f).then (compare m n)).swap = _
    rw [compare_digits ca cb, swap_compare_neg]
    simp only [toRat, unit, neg_one_mul]
  · exact some_lt ((toRat_negative hm).trans (toRat_positive hn))
  · exact some_gt ((toRat_negative hn).trans (toRat_positive hm))
  · change some ((compare e f).then (compare m n)) = _
    rw [compare_digits ca cb]
    simp only [toRat, unit, one_mul]

/-- Floats that are numbers are compared as the numbers they are. -/
theorem compare_toRat {a b : UnpackedFloat} (ha : a.isNaN = false) (hb : b.isNaN = false)
    (ca : Canonical a) (cb : Canonical b) (fa : Fits a) (fb : Fits b) :
    a.compare b = some (compare (toRat a) (toRat b)) := by
  have top := limit_pos
  cases a with
  | notANumber => contradiction
  | infinity s =>
    cases b with
    | notANumber => contradiction
    | infinity t =>
      cases s <;> cases t
      · exact some_eq _
      · exact some_lt (by simp only [toRat_infinity, unit]; linarith)
      · exact some_gt (by simp only [toRat_infinity, unit]; linarith)
      · exact some_eq _
    | zero t =>
      cases s
      · exact some_lt (toRat_between rfl cb fb).1
      · exact some_gt (toRat_between rfl cb fb).2
    | finite t n f hn =>
      cases s
      · exact some_lt (toRat_between rfl cb fb).1
      · exact some_gt (toRat_between rfl cb fb).2
  | zero s =>
    cases b with
    | notANumber => contradiction
    | infinity t =>
      cases t
      · exact some_gt (toRat_between rfl ca fa).1
      · exact some_lt (toRat_between rfl ca fa).2
    | zero t => exact some_eq 0
    | finite t n f hn =>
      cases t
      · exact some_gt (toRat_negative hn)
      · exact some_lt (toRat_positive hn)
  | finite s m e hm =>
    cases b with
    | notANumber => contradiction
    | infinity t =>
      cases t
      · exact some_gt (toRat_between rfl ca fa).1
      · exact some_lt (toRat_between rfl ca fa).2
    | zero t =>
      cases s
      · exact some_lt (toRat_negative hm)
      · exact some_gt (toRat_positive hm)
    | finite t n f hn => exact compare_finite ca cb

theorem lt_iff {x y : Float} (hx : x.isNaN = false) (hy : y.isNaN = false) : x < y ↔ value x < value y := by
  have compared : (parts x).compare (parts y) = some (compare (value x) (value y)) :=
    compare_toRat hx hy (canonical_parts x) (canonical_parts y) (fits_parts x) (fits_parts y)
  change decide (((parts x).compare (parts y) == some .lt) = true) = true ↔ _
  rw [compared, ← compare_lt_iff_lt]
  simp

theorem value_leastFloat {x y : Float} (hx : x.isNaN = false) (hy : y.isNaN = false) :
    (Scalar.leastFloat x y).isNaN = false ∧ value (Scalar.leastFloat x y) = min (value x) (value y) := by
  unfold Scalar.leastFloat
  simp only [hx, hy, lt_iff hy hx, Bool.false_eq_true, if_false]
  split
  · exact ⟨hy, (min_eq_right (by assumption : value y < value x).le).symm⟩
  · exact ⟨hx, (min_eq_left (not_lt.1 (by assumption))).symm⟩

theorem value_greatestFloat {x y : Float} (hx : x.isNaN = false) (hy : y.isNaN = false) :
    (Scalar.greatestFloat x y).isNaN = false ∧
      value (Scalar.greatestFloat x y) = max (value x) (value y) := by
  unfold Scalar.greatestFloat
  simp only [hx, hy, lt_iff hx hy, Bool.false_eq_true, if_false]
  split
  · exact ⟨hy, (max_eq_right (by assumption : value x < value y).le).symm⟩
  · exact ⟨hx, (max_eq_left (not_lt.1 (by assumption))).symm⟩

end CodeAtlas.Binary64
