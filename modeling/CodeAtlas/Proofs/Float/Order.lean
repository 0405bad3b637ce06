import CodeAtlas.Proofs.Float.Integers
import CodeAtlas.Proofs.Float.Magnitude

/-! Operations that keep the order of floats.

Rounding never turns the order of two exact numbers round, but equal numbers may be given
by different floats, and those be rounded apart. Only zero has two floats
(`eq_or_zero_of_value`), so an operation that rounds a strictly increasing function keeps
the order of finite floats (`value_le_of_strictMono`), and so do sums, differences and
products with a fixed float. -/
namespace CodeAtlas.Binary64
open Float.Model (UnpackedFloat)
open Float.Model.UnpackedFloat

section
variable {x y c : Float}

/-- Finite floats of one value are the same, unless they are zero. -/
theorem eq_or_zero_of_value (hx : x.isFinite = true) (hy : y.isFinite = true) (h : value x = value y) :
    x = y ∨ value x = 0 := by
  rw [isFinite_eq] at hx hy
  have cx := canonical_parts x
  have cy := canonical_parts y
  unfold value at h ⊢
  cases px : parts x with
  | infinity s => rw [px] at hx; contradiction
  | notANumber => rw [px] at hx; contradiction
  | zero s => exact .inr rfl
  | finite s m e hm =>
    cases py : parts y with
    | infinity t => rw [py] at hy; contradiction
    | notANumber => rw [py] at hy; contradiction
    | zero t => exact .inr (by rw [← px, h, py, toRat])
    | finite t n f hn =>
      rw [px] at h cx
      rw [py] at h cy
      have same : s = t := by
        have pos := toRat_positive (e := e) hm
        have neg := toRat_negative (e := e) hm
        have pos' := toRat_positive (e := f) hn
        have neg' := toRat_negative (e := f) hn
        cases s <;> cases t
        · rfl
        · linarith
        · linarith
        · rfl
      obtain ⟨rfl, rfl⟩ := Digits.unique cx cy (by rw [← abs_toRat_finite s hm, h, abs_toRat_finite])
      exact .inl (eq_of_parts (by rw [px, py, same]))

/-- An operation that rounds a strictly increasing function keeps the order. -/
theorem value_le_of_strictMono (f : ℚ → ℚ) (op : UnpackedFloat → UnpackedFloat) (increasing : StrictMono f)
    (hzero : OnGrid (f 0)) (within : |f 0| ≤ limit)
    (rounds : ∀ z : Float, z.isFinite = true → Nearest (f (value z)) (op (parts z)))
    (hx : x.isFinite = true) (hy : y.isFinite = true) (h : value x ≤ value y) :
    value (.ofModel (.pack (op (parts x)))) ≤ value (.ofModel (.pack (op (parts y)))) := by
  obtain lt | same := h.lt_or_eq
  · exact (rounds x hx).value_le (rounds y hy) (Rat.cast_lt.mpr (increasing lt))
  · obtain rfl | zero := eq_or_zero_of_value hx hy same
    · exact le_rfl
    · have exact {z : Float} (hz : z.isFinite = true) (none : value z = 0) :
          value (.ofModel (.pack (op (parts z)))) = f 0 := by
        have rounded := rounds z hz
        rw [none] at rounded
        exact rounded.rounded.isRounding.value_eq hzero within
      exact ((exact hx zero).trans (exact hy (same ▸ zero)).symm).le

theorem value_add_le_add_right (hc : c.isFinite = true) (hx : x.isFinite = true) (hy : y.isFinite = true)
    (h : value x ≤ value y) : value (x + c) ≤ value (y + c) :=
  value_le_of_strictMono (fun q => q + value c) (fun u => add .binary64 u (parts c))
    (fun _ _ lt => add_lt_add_left lt _) (by simpa using onGrid_value c) (by simpa using abs_value_le_limit c)
    (fun z hz => nearest_add hz hc (canonical_parts z) (canonical_parts c)) hx hy h

theorem value_sub_le_sub_right (hc : c.isFinite = true) (hx : x.isFinite = true) (hy : y.isFinite = true)
    (h : value x ≤ value y) : value (x - c) ≤ value (y - c) :=
  value_le_of_strictMono (fun q => q - value c) (fun u => sub .binary64 u (parts c))
    (fun _ _ lt => sub_lt_sub_right lt _) (by simpa using (onGrid_value c).neg) (by simpa using abs_value_le_limit c)
    (fun z hz => nearest_sub hz hc (canonical_parts z) (canonical_parts c)) hx hy h

/-- A product with zero is zero. -/
theorem value_mul_zero (hx : x.isFinite = true) (hy : y.isFinite = true) (h : value x * value y = 0) :
    value (x * y) = 0 := by
  have rounded := isRounding_mul hx hy
  rw [h] at rounded
  exact rounded.value_eq onGrid_zero (by simpa using limit_pos.le)

theorem value_mul_le_mul_right (hc : c.isFinite = true) (nonneg : 0 ≤ value c) (hx : x.isFinite = true)
    (hy : y.isFinite = true) (h : value x ≤ value y) : value (x * c) ≤ value (y * c) := by
  obtain zero | pos := nonneg.eq_or_lt
  · rw [value_mul_zero hx hc (by rw [← zero, mul_zero]), value_mul_zero hy hc (by rw [← zero, mul_zero])]
  · exact value_le_of_strictMono (fun q => q * value c) (fun u => mul .binary64 u (parts c))
      (fun _ _ lt => mul_lt_mul_of_pos_right lt pos) (by simpa using onGrid_zero) (by simpa using limit_pos.le)
      (fun z hz => nearest_mul hz hc (canonical_parts z) (canonical_parts c)) hx hy h

theorem value_mul_le_mul_left (hc : c.isFinite = true) (nonneg : 0 ≤ value c) (hx : x.isFinite = true)
    (hy : y.isFinite = true) (h : value x ≤ value y) : value (c * x) ≤ value (c * y) := by
  obtain zero | pos := nonneg.eq_or_lt
  · rw [value_mul_zero hc hx (by rw [← zero, zero_mul]), value_mul_zero hc hy (by rw [← zero, zero_mul])]
  · exact value_le_of_strictMono (fun q => value c * q) (fun u => mul .binary64 (parts c) u)
      (fun _ _ lt => mul_lt_mul_of_pos_left lt pos) (by simpa using onGrid_zero) (by simpa using limit_pos.le)
      (fun z hz => nearest_mul hc hz (canonical_parts c) (canonical_parts z)) hx hy h

end

theorem value_ofNat_le {m n : ℕ} (h : m ≤ n) : value (Float.ofNat m) ≤ value (Float.ofNat n) := by
  obtain lt | rfl := h.lt_or_eq
  · obtain ⟨u, hu, near⟩ := exists_nearest_ofNat m
    obtain ⟨v, hv, near'⟩ := exists_nearest_ofNat n
    rw [hu, hv]
    exact near.value_le near' (by exact_mod_cast lt)
  · exact le_rfl

end CodeAtlas.Binary64
