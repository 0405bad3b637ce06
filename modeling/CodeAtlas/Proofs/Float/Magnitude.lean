import CodeAtlas.Proofs.Float.Arithmetic

/-! The magnitude of a vector of floats.

A square is neither undefined nor of negative sign, and nor are sums and roots of such
numbers (`IsSize`). Sizes of the same value are the same float, so each operation keeps
their order: of two different results the greater exact one is not rounded to less, and
equal ones are rounded alike. So a vector with no greater components has no greater
magnitude (`magnitude_le`), overflow included, and a magnitude is undefined only where a
component is (`isNaN_magnitude_iff`). -/
namespace CodeAtlas.Binary64
open Float.Model (Format UnpackedFloat)
open Float.Model.UnpackedFloat

/-! ### Sizes -/

/-- Neither undefined nor of negative sign. -/
def IsPositive : UnpackedFloat → Prop
  | .infinity s => s = .positive
  | .notANumber => False
  | .zero s => s = .positive
  | .finite s _ _ _ => s = .positive

theorem mul_self_sign (s : Sign) : s * s = .positive := by cases s <;> rfl

theorem isPositive_roundWithAccuracy (m : ℕ) (e : ℤ) (acc : Accuracy) :
    IsPositive (roundWithAccuracy .binary64 .positive m e acc) := by
  unfold roundWithAccuracy
  dsimp only
  split <;> rfl

theorem isPositive_normalize {m : ℤ} (hm : 0 ≤ m) (e : ℤ) :
    IsPositive (UnpackedFloat.normalize .binary64 m e .positive) := by
  unfold UnpackedFloat.normalize
  obtain rfl | pos := hm.eq_or_lt
  · rfl
  · rw [Int.compare_eq_gt.2 pos]
    exact isPositive_roundWithAccuracy _ _ _

section
variable {a b : UnpackedFloat}

theorem isPositive_mul_self (number : a.isNaN = false) (ca : Canonical a) :
    Canonical (mul .binary64 a a) ∧ IsPositive (mul .binary64 a a) := by
  cases a with
  | infinity s => exact ⟨trivial, mul_self_sign s⟩
  | notANumber => contradiction
  | zero s => exact ⟨trivial, mul_self_sign s⟩
  | finite s m e hm =>
    refine ⟨(nearest_mul rfl rfl ca ca).canonical, ?_⟩
    rw [mul, mul_self_sign]
    exact isPositive_roundWithAccuracy _ _ _

theorem isPositive_add (ha : IsPositive a) (hb : IsPositive b) (ca : Canonical a) (cb : Canonical b) :
    Canonical (add .binary64 a b) ∧ IsPositive (add .binary64 a b) := by
  cases a with
  | infinity s =>
    obtain rfl : s = .positive := ha
    cases b with
    | infinity t =>
      obtain rfl : t = .positive := hb
      exact ⟨trivial, rfl⟩
    | notANumber => exact hb.elim
    | zero t => exact ⟨trivial, rfl⟩
    | finite t n f hn => exact ⟨trivial, rfl⟩
  | notANumber => exact ha.elim
  | zero s =>
    obtain rfl : s = .positive := ha
    cases b with
    | infinity t => exact ⟨trivial, hb⟩
    | notANumber => exact hb.elim
    | zero t =>
      obtain rfl : t = .positive := hb
      exact ⟨trivial, rfl⟩
    | finite t n f hn => exact ⟨cb, hb⟩
  | finite s m e hm =>
    obtain rfl : s = .positive := ha
    cases b with
    | infinity t => exact ⟨trivial, hb⟩
    | notANumber => exact hb.elim
    | zero t => exact ⟨ca, rfl⟩
    | finite t n f hn =>
      obtain rfl : t = .positive := hb
      exact ⟨(nearest_add rfl rfl ca cb).canonical, isPositive_normalize (by simp only [Sign.apply]; positivity) _⟩

theorem isPositive_sqrt (ha : IsPositive a) :
    Canonical (UnpackedFloat.sqrt .binary64 a) ∧ IsPositive (UnpackedFloat.sqrt .binary64 a) := by
  cases a with
  | infinity s =>
    obtain rfl : s = .positive := ha
    exact ⟨trivial, rfl⟩
  | notANumber => exact ha.elim
  | zero s => exact ⟨trivial, ha⟩
  | finite s m e hm =>
    obtain rfl : s = .positive := ha
    exact ⟨(nearest_sqrt hm).canonical, isPositive_roundWithAccuracy _ _ _⟩

end

/-- A float that is neither undefined nor of negative sign. -/
def IsSize (x : Float) : Prop := IsPositive (parts x)

theorem isSize_pack {u : UnpackedFloat} (h : Canonical u ∧ IsPositive u) : IsSize (.ofModel (.pack u)) := by
  obtain ⟨canonical, positive⟩ := h
  unfold IsSize
  cases u with
  | infinity s =>
    obtain rfl : s = .positive := positive
    exact rfl
  | notANumber => exact positive.elim
  | zero s =>
    obtain rfl : s = .positive := positive
    exact rfl
  | finite s m e hm =>
    obtain fits | beyond := le_or_gt e 971
    · have stored : parts (.ofModel (.pack (.finite s m e hm))) = .finite s m e hm :=
        unpack_pack_fits s hm canonical fits
      rw [stored]
      exact positive
    · have stored : parts (.ofModel (.pack (.finite s m e hm))) = .infinity s := unpack_pack_overflow s hm beyond
      rw [stored]
      exact positive

section
variable {x y : Float}

theorem isSize_mul_self (number : x.isNaN = false) : IsSize (x * x) :=
  isSize_pack (isPositive_mul_self number (canonical_parts x))

theorem IsSize.add (hx : IsSize x) (hy : IsSize y) : IsSize (x + y) :=
  isSize_pack (isPositive_add hx hy (canonical_parts x) (canonical_parts y))

theorem IsSize.sqrt (hx : IsSize x) : IsSize x.sqrt := isSize_pack (isPositive_sqrt hx)

theorem IsSize.number (h : IsSize x) : x.isNaN = false := by
  rw [isNaN_eq]
  unfold IsSize at h
  cases hx : parts x with
  | notANumber => rw [hx] at h; exact h.elim
  | _ => rfl

/-- What is stored differs only where the floats do. -/
theorem eq_of_parts (h : parts x = parts y) : x = y := by
  have stored (z : Float) : Float.ofModel (.pack (parts z)) = z := by
    rw [← Float.toBits_inj]
    exact UInt64.toBitVec_inj.mp (pack_unpack_of_valid z.toModel.valid)
  rw [← stored x, h, stored y]

theorem Digits.unique {m n : ℕ} {e f : ℤ} (d : Digits m e) (d' : Digits n f) (h : (m : ℚ) * 2 ^ e = n * 2 ^ f) :
    m = n ∧ e = f := by
  obtain lt | rfl | gt := lt_trichotomy e f
  · exact absurd h (d.lt_of_exponent_lt d' lt).ne
  · exact ⟨by exact_mod_cast mul_right_cancel₀ (two_zpow_pos e).ne' h, rfl⟩
  · exact absurd h (d'.lt_of_exponent_lt d gt).ne'

/-- A size is infinite, zero or between. -/
theorem IsSize.cases (h : IsSize x) :
    (parts x = .infinity .positive ∧ value x = limit) ∨ (parts x = .zero .positive ∧ value x = 0) ∨
      ∃ m e hm, parts x = .finite .positive m e hm ∧ 0 < value x ∧ value x < limit := by
  unfold IsSize at h
  cases hx : parts x with
  | infinity s =>
    rw [hx] at h
    obtain rfl : s = .positive := h
    exact .inl ⟨rfl, by rw [value, hx, toRat, unit, one_mul]⟩
  | notANumber => rw [hx] at h; exact h.elim
  | zero s =>
    rw [hx] at h
    obtain rfl : s = .positive := h
    exact .inr (.inl ⟨rfl, by rw [value, hx, toRat]⟩)
  | finite s m e hm =>
    rw [hx] at h
    obtain rfl : s = .positive := h
    have finite : x.isFinite = true := by rw [isFinite_eq, hx]; rfl
    exact .inr (.inr ⟨m, e, hm, rfl, by rw [value, hx]; exact toRat_positive hm, (abs_lt.mp (abs_value_lt finite)).2⟩)

theorem IsSize.isFinite_iff (h : IsSize x) : x.isFinite = true ↔ value x < limit := by
  rw [isFinite_eq]
  obtain ⟨hx, hv⟩ | ⟨hx, hv⟩ | ⟨m, e, hm, hx, -, hv⟩ := h.cases <;> rw [hx]
  · exact ⟨nofun, fun lt => absurd hv lt.ne⟩
  · exact ⟨fun _ => hv ▸ limit_pos, fun _ => rfl⟩
  · exact ⟨fun _ => hv, fun _ => rfl⟩

/-- Two sizes of the same value are the same float. -/
theorem IsSize.eq_of_value (hx : IsSize x) (hy : IsSize y) (h : value x = value y) : x = y := by
  have top := limit_pos
  obtain ⟨px, vx⟩ | ⟨px, vx⟩ | ⟨m, e, hm, px, lowx, highx⟩ := hx.cases
  · obtain ⟨py, vy⟩ | ⟨py, vy⟩ | ⟨n, f, hn, py, lowy, highy⟩ := hy.cases
    · exact eq_of_parts (px.trans py.symm)
    all_goals exfalso; linarith
  · obtain ⟨py, vy⟩ | ⟨py, vy⟩ | ⟨n, f, hn, py, lowy, highy⟩ := hy.cases
    · exfalso; linarith
    · exact eq_of_parts (px.trans py.symm)
    · exfalso; linarith
  · obtain ⟨py, vy⟩ | ⟨py, vy⟩ | ⟨n, f, hn, py, lowy, highy⟩ := hy.cases
    · exfalso; linarith
    · exfalso; linarith
    · rw [value, value, px, py] at h
      simp only [toRat, unit, one_mul] at h
      have digits := canonical_parts x
      have digits' := canonical_parts y
      rw [px] at digits
      rw [py] at digits'
      obtain ⟨rfl, rfl⟩ := Digits.unique digits digits' h
      exact eq_of_parts (px.trans py.symm)

end

/-! ### What is undefined -/

section
variable {x y : Float}

theorem parts_of_isNaN (h : x.isNaN = true) : parts x = .notANumber := by
  rw [isNaN_eq] at h
  cases hx : parts x with
  | notANumber => rfl
  | _ => rw [hx] at h; contradiction

theorem isNaN_pack {u : UnpackedFloat} (h : u = .notANumber) : (Float.ofModel (.pack u)).isNaN = true := by
  rw [h]
  rfl

theorem isNaN_mul_left (h : x.isNaN = true) (y : Float) : (x * y).isNaN = true :=
  isNaN_pack (u := mul .binary64 (parts x) (parts y)) (by rw [parts_of_isNaN h, mul])

theorem isNaN_add_left (h : x.isNaN = true) (y : Float) : (x + y).isNaN = true :=
  isNaN_pack (u := add .binary64 (parts x) (parts y)) (by rw [parts_of_isNaN h, add])

theorem isNaN_add_right (x : Float) (h : y.isNaN = true) : (x + y).isNaN = true := by
  refine isNaN_pack (u := add .binary64 (parts x) (parts y)) ?_
  rw [parts_of_isNaN h]
  cases parts x <;> rfl

theorem isNaN_sqrt (h : x.isNaN = true) : x.sqrt.isNaN = true :=
  isNaN_pack (u := UnpackedFloat.sqrt .binary64 (parts x)) (by rw [parts_of_isNaN h, UnpackedFloat.sqrt])

/-- Nothing is less than what is undefined, or greater. -/
theorem number_of_compare {u v : UnpackedFloat} {o : Ordering} (h : u.compare v = some o) :
    u.isNaN = false ∧ v.isNaN = false := by
  cases u with
  | notANumber => contradiction
  | _ => cases v with
    | notANumber => contradiction
    | _ => exact ⟨rfl, rfl⟩

theorem number_of_lt (h : x < y) : x.isNaN = false ∧ y.isNaN = false := by
  change decide (((parts x).compare (parts y) == some .lt) = true) = true at h
  exact number_of_compare (u := parts x) (v := parts y) (o := .lt) (by simpa using h)

theorem number_of_le (h : x ≤ y) : x.isNaN = false ∧ y.isNaN = false := by
  change decide (((parts x).compare (parts y)).any (·.isLE) = true) = true at h
  obtain ⟨o, ho, -⟩ := (Option.any_eq_true _ _).mp (by simpa using h)
  exact number_of_compare ho

theorem le_iff (hx : x.isNaN = false) (hy : y.isNaN = false) : x ≤ y ↔ value x ≤ value y := by
  have compared : (parts x).compare (parts y) = some (compare (value x) (value y)) :=
    compare_toRat hx hy (canonical_parts x) (canonical_parts y) (fits_parts x) (fits_parts y)
  change decide (((parts x).compare (parts y)).any (·.isLE) = true) = true ↔ _
  rw [compared, ← compare_le_iff_le]
  cases compare (value x) (value y) <;> simp

end

/-! ### Order -/

theorem abs_value_le_limit (x : Float) : |value x| ≤ limit := by
  have top := limit_pos
  unfold value
  cases hx : parts x with
  | infinity s => obtain hs | hs := unit_cases s <;> simp [toRat, hs, abs_of_pos top]
  | notANumber => simpa [toRat] using top.le
  | zero s => simpa [toRat] using top.le
  | finite s m e hm =>
    have finite : x.isFinite = true := by rw [isFinite_eq, hx]; rfl
    have lt := abs_value_lt finite
    rw [value, hx] at lt
    exact lt.le

/-- A finite number that is packed keeps its value as far as the format reaches. -/
theorem value_pack {u : UnpackedFloat} (hf : u.isFinite = true) (hc : Canonical u) :
    value (.ofModel (.pack u)) = max (-limit) (min limit (toRat u)) := by
  have top := limit_pos
  cases u with
  | infinity s => contradiction
  | notANumber => contradiction
  | zero s =>
    have stored : parts (.ofModel (.pack (.zero s))) = .zero s := by cases s <;> rfl
    rw [value, stored, toRat, min_eq_right top.le, max_eq_right (by linarith)]
  | finite s m e hm =>
    obtain fits | beyond := le_or_gt e 971
    · have stored : parts (.ofModel (.pack (.finite s m e hm))) = .finite s m e hm := unpack_pack_fits s hm hc fits
      obtain ⟨low, high⟩ := abs_lt.mp (abs_toRat_lt hf hc fits)
      rw [value, stored, min_eq_right high.le, max_eq_right low.le]
    · have stored : parts (.ofModel (.pack (.finite s m e hm))) = .infinity s := unpack_pack_overflow s hm beyond
      have large := limit_le_magnitude hc beyond
      rw [value, stored]
      cases s <;> simp only [toRat, unit, one_mul, neg_one_mul]
      · rw [min_eq_right (by linarith), max_eq_left (by linarith)]
      · rw [min_eq_left large, max_eq_right (by linarith)]

theorem Nearest.value_le {q q' : ℝ} {u u' : UnpackedFloat} (h : Nearest q u) (h' : Nearest q' u') (lt : q < q') :
    value (.ofModel (.pack u)) ≤ value (.ofModel (.pack u')) := by
  rw [value_pack h.finite h.canonical, value_pack h'.finite h'.canonical]
  exact max_le_max le_rfl (min_le_min le_rfl (h.mono h' lt))

/-- A square is the same for all numbers of one amount. -/
theorem mul_self_congr {a b : UnpackedFloat} (ha : a.isFinite = true) (hb : b.isFinite = true) (ca : Canonical a)
    (cb : Canonical b) (h : |toRat a| = |toRat b|) : mul .binary64 a a = mul .binary64 b b := by
  have pos {s : Sign} {m : ℕ} {e : ℤ} (hm : 0 < m) : |toRat (.finite s m e hm)| ≠ 0 := by
    rw [abs_toRat_finite]
    have := two_zpow_pos e
    positivity
  have none (s : Sign) : |toRat (.zero s)| = 0 := abs_zero
  cases a with
  | infinity s => contradiction
  | notANumber => contradiction
  | zero s =>
    cases b with
    | infinity t => contradiction
    | notANumber => contradiction
    | zero t => rw [mul, mul, mul_self_sign, mul_self_sign]
    | finite t n f hn => exact absurd (h.symm.trans (none s)) (pos hn)
  | finite s m e hm =>
    cases b with
    | infinity t => contradiction
    | notANumber => contradiction
    | zero t => exact absurd (h.trans (none t)) (pos hm)
    | finite t n f hn =>
      rw [abs_toRat_finite, abs_toRat_finite] at h
      obtain ⟨rfl, rfl⟩ := Digits.unique ca cb h
      rw [mul, mul, mul_self_sign, mul_self_sign]

section
variable {x y x' y' : Float}

/-- The square of a finite number of no greater amount is not greater. -/
theorem value_mul_self_le (hx : x.isFinite = true) (hy : y.isFinite = true) (h : |value x| ≤ |value y|) :
    value (x * x) ≤ value (y * y) := by
  have cx := canonical_parts x
  have cy := canonical_parts y
  obtain lt | same := h.lt_or_eq
  · have squares : value x * value x < value y * value y := by
      rw [← sq, ← sq]
      exact sq_lt_sq.mpr lt
    exact (nearest_mul hx hx cx cx).value_le (nearest_mul hy hy cy cy) (Rat.cast_lt.mpr squares)
  · exact (congrArg (fun u => value (.ofModel (.pack u))) (mul_self_congr hx hy cx cy same)).le

theorem IsSize.value_of_not_finite (h : IsSize x) (beyond : ¬x.isFinite = true) : value x = limit :=
  le_antisymm (abs_le.mp (abs_value_le_limit x)).2 (not_lt.mp (mt h.isFinite_iff.mpr beyond))

theorem IsSize.parts_of_not_finite (h : IsSize x) (beyond : ¬x.isFinite = true) : parts x = .infinity .positive := by
  rw [isFinite_eq] at beyond
  obtain ⟨px, -⟩ | ⟨px, -⟩ | ⟨m, e, hm, px, -⟩ := h.cases
  · exact px
  · rw [px] at beyond; exact absurd rfl beyond
  · rw [px] at beyond; exact absurd rfl beyond

theorem IsSize.isFinite_of_add (hx : IsSize x) (hy : IsSize y) (h : (x + y).isFinite = true) :
    x.isFinite = true ∧ y.isFinite = true := by
  by_contra beyond
  have infinite : UnpackedFloat.add .binary64 (parts x) (parts y) = .infinity .positive := by
    by_cases fx : x.isFinite = true
    · rw [hy.parts_of_not_finite fun fy => beyond ⟨fx, fy⟩]
      obtain ⟨px, -⟩ | ⟨px, -⟩ | ⟨m, e, hm, px, -⟩ := hx.cases <;> rw [px] <;> rfl
    · rw [hx.parts_of_not_finite fx]
      obtain ⟨py, -⟩ | ⟨py, -⟩ | ⟨m, e, hm, py, -⟩ := hy.cases <;> rw [py] <;> rfl
  have lost : (x + y).isFinite = false :=
    not_finite_pack (u := UnpackedFloat.add .binary64 (parts x) (parts y)) (by rw [infinite]; rfl)
  rw [lost] at h
  contradiction

theorem IsSize.isFinite_of_sqrt (hx : IsSize x) (h : x.sqrt.isFinite = true) : x.isFinite = true := by
  by_contra beyond
  have lost : x.sqrt.isFinite = false :=
    not_finite_pack (u := UnpackedFloat.sqrt .binary64 (parts x)) (by rw [hx.parts_of_not_finite beyond]; rfl)
  rw [lost] at h
  contradiction

theorem IsSize.value_add_le (hx : IsSize x) (hy : IsSize y) (hx' : IsSize x') (hy' : IsSize y')
    (h : value x ≤ value x') (h' : value y ≤ value y') : value (x + y) ≤ value (x' + y') := by
  by_cases finite : (x' + y').isFinite = true
  · obtain ⟨fx', fy'⟩ := hx'.isFinite_of_add hy' finite
    have fx : x.isFinite = true := hx.isFinite_iff.mpr (h.trans_lt (hx'.isFinite_iff.mp fx'))
    have fy : y.isFinite = true := hy.isFinite_iff.mpr (h'.trans_lt (hy'.isFinite_iff.mp fy'))
    obtain lt | same := (add_le_add h h').lt_or_eq
    · exact (nearest_add fx fy (canonical_parts x) (canonical_parts y)).value_le
        (nearest_add fx' fy' (canonical_parts x') (canonical_parts y')) (Rat.cast_lt.mpr lt)
    · rw [hx.eq_of_value hx' (by linarith), hy.eq_of_value hy' (by linarith)]
  · rw [(hx'.add hy').value_of_not_finite finite]
    exact (abs_le.mp (abs_value_le_limit _)).2

theorem IsSize.nearest_sqrt (hx : IsSize x) (finite : x.isFinite = true) :
    Nearest √(value x : ℝ) (UnpackedFloat.sqrt .binary64 (parts x)) := by
  rw [isFinite_eq] at finite
  obtain ⟨px, -⟩ | ⟨px, vx⟩ | ⟨m, e, hm, px, -⟩ := hx.cases
  · rw [px] at finite
    contradiction
  · rw [px, vx, Rat.cast_zero, Real.sqrt_zero]
    have exact := nearest_self (u := .zero .positive) rfl trivial
    rwa [toRat, Rat.cast_zero] at exact
  · rw [value, px]
    exact Binary64.nearest_sqrt hm

theorem IsSize.value_sqrt_le (hx : IsSize x) (hy : IsSize y) (h : value x ≤ value y) :
    value x.sqrt ≤ value y.sqrt := by
  by_cases finite : y.sqrt.isFinite = true
  · have fy := hy.isFinite_of_sqrt finite
    have fx : x.isFinite = true := hx.isFinite_iff.mpr (h.trans_lt (hy.isFinite_iff.mp fy))
    obtain lt | same := h.lt_or_eq
    · have nonneg : 0 ≤ value x := by
        obtain ⟨-, vx⟩ | ⟨-, vx⟩ | ⟨m, e, hm, -, vx, -⟩ := hx.cases
        · exact vx ▸ limit_pos.le
        · exact vx.ge
        · exact vx.le
      have roots : √(value x : ℝ) < √(value y : ℝ) :=
        Real.sqrt_lt_sqrt (by exact_mod_cast nonneg) (by exact_mod_cast lt)
      exact (hx.nearest_sqrt fx).value_le (hy.nearest_sqrt fy) roots
    · rw [hx.eq_of_value hy same]
  · rw [hy.sqrt.value_of_not_finite finite]
    exact (abs_le.mp (abs_value_le_limit _)).2

end

/-! ### Magnitudes -/

/-- The length of a vector. -/
def magnitude (x y : Float) : Float := Float.sqrt (x * x + y * y)

section
variable {x y x' y' : Float}

theorem isSize_magnitude (hx : x.isNaN = false) (hy : y.isNaN = false) : IsSize (magnitude x y) :=
  ((isSize_mul_self hx).add (isSize_mul_self hy)).sqrt

/-- A magnitude is undefined exactly if one of the components is. -/
theorem isNaN_magnitude_iff : (magnitude x y).isNaN = true ↔ x.isNaN = true ∨ y.isNaN = true := by
  constructor
  · intro undefined
    by_contra defined
    rw [not_or, Bool.not_eq_true, Bool.not_eq_true] at defined
    rw [(isSize_magnitude defined.1 defined.2).number] at undefined
    contradiction
  · rintro (hx | hy)
    · exact isNaN_sqrt (isNaN_add_left (isNaN_mul_left hx x) _)
    · exact isNaN_sqrt (isNaN_add_right _ (isNaN_mul_left hy y))

/-- A vector has no greater magnitude than one with components of no smaller amount. -/
theorem magnitude_le (hx : x.isFinite = true) (hy : y.isFinite = true) (hx' : x'.isFinite = true)
    (hy' : y'.isFinite = true) (h : |value x| ≤ |value x'|) (h' : |value y| ≤ |value y'|) :
    value (magnitude x y) ≤ value (magnitude x' y') := by
  have square {z : Float} (hz : z.isFinite = true) : IsSize (z * z) := isSize_mul_self (isNaN_of_isFinite hz)
  refine ((square hx).add (square hy)).value_sqrt_le ((square hx').add (square hy')) ?_
  exact (square hx).value_add_le (square hy) (square hx') (square hy') (value_mul_self_le hx hx' h)
    (value_mul_self_le hy hy' h')

theorem isFinite_of_magnitude (hx : x.isNaN = false) (hy : y.isNaN = false)
    (h : (magnitude x y).isFinite = true) : x.isFinite = true ∧ y.isFinite = true := by
  have factor {z : Float} (hz : (z * z).isFinite = true) : z.isFinite = true := by
    by_contra beyond
    rw [not_finite_mul_left (by simpa using beyond) z] at hz
    contradiction
  have sx := isSize_mul_self hx
  have sy := isSize_mul_self hy
  obtain ⟨fx, fy⟩ := sx.isFinite_of_add sy ((sx.add sy).isFinite_of_sqrt h)
  exact ⟨factor fx, factor fy⟩

end

end CodeAtlas.Binary64
