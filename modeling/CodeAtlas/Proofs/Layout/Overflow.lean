import CodeAtlas.Layout.Engine
import CodeAtlas.Proofs.Float.Integers

/-! When fitting a layout into its canvas overflows.

Normalization maps a point by the middle of the box of all points, a scale and the
middle of the canvas. On exact numbers it always succeeds. On floats the middle is
half of a rounded sum, and the sum of two finite coordinates may be beyond every
finite number although their middle is not; then no point comes to lie anywhere
(`normalize_unplaced`). That is the only way to fail: if the middles are finite, the
distances from them are within the reach of the coordinates, the scale turns them
into lengths of the canvas, and a canvas of up to a quarter of the limit leaves
room for the rounding (`normalize_placed`). -/
namespace CodeAtlas
open Binary64 Scalar

/-! ### The middle of two coordinates -/

/-- Where a rounded middle of `a` and `b` may lie. -/
structure IsMiddle (a b c : ℚ) : Prop where
  small : |c| ≤ |a + b|
  nonneg : 0 ≤ a + b → 0 ≤ c
  nonpos : a + b ≤ 0 → c ≤ 0
  above : a ≤ b → a ≤ c
  below : a ≤ b → c ≤ b

section
variable {a b c p : ℚ} (h : IsMiddle a b c) (hap : a ≤ p) (hpb : p ≤ b)
include h hap hpb

theorem IsMiddle.distance_le_extent : |p - c| ≤ b - a := by
  have above := h.above (hap.trans hpb)
  have below := h.below (hap.trans hpb)
  exact abs_le.2 ⟨by linarith, by linarith⟩

/-- No point is further from the middle than the outer end is from the origin. -/
theorem IsMiddle.distance_le_reach : |p - c| ≤ max |a| |b| := by
  have small := h.small
  obtain right | left := le_total 0 (a + b)
  · have nonneg := h.nonneg right
    rw [abs_of_nonneg nonneg, abs_of_nonneg right] at small
    exact (abs_le.2 ⟨by linarith, by linarith⟩ : |p - c| ≤ b).trans ((le_abs_self b).trans (le_max_right _ _))
  · have nonpos := h.nonpos left
    rw [abs_of_nonpos nonpos, abs_of_nonpos left] at small
    exact (abs_le.2 ⟨by linarith, by linarith⟩ : |p - c| ≤ -a).trans ((neg_le_abs a).trans (le_max_left _ _))

end

theorem finite_two : (nat 2 : Float).isFinite = true := by decide +kernel

theorem value_two : value (nat 2) = 2 := by
  exact_mod_cast (value_ofNat (by norm_num) : value (Float.ofNat 2) = (2 : ℕ))

section
variable {x a b p : Float}

theorem isRounding_half (hx : x.isFinite = true) : IsRounding (value x / 2) (half x) := by
  have quotient := isRounding_div hx finite_two (by rw [value_two]; norm_num)
  rwa [value_two] at quotient

theorem abs_half_le (x : Float) : |value x / 2| ≤ |value x| := by
  rw [abs_div, abs_two]
  exact half_le_self (abs_nonneg _)

theorem isFinite_half (hx : x.isFinite = true) : (half x).isFinite = true :=
  (isRounding_half hx).isFinite (onGrid_value x).abs (abs_value_lt hx) (abs_half_le x)

theorem isFinite_half_iff : (half x).isFinite = x.isFinite := by
  cases hx : x.isFinite with
  | true => exact isFinite_half hx
  | false => exact not_finite_div_left hx finite_two

/-- The powers of two around a number that is not below the smallest. -/
theorem exists_two_zpow {q : ℚ} (h : smallest ≤ q) : ∃ k : ℤ, -1074 ≤ k ∧ 2 ^ k ≤ q ∧ q < 2 ^ (k + 1) := by
  obtain ⟨k, low, high⟩ := exists_mem_Ico_zpow (smallest_pos.trans_le h) (one_lt_two : (1 : ℚ) < 2)
  have := (zpow_lt_zpow_iff_right₀ (one_lt_two : (1 : ℚ) < 2)).1 ((smallest_eq ▸ h).trans_lt high)
  exact ⟨k, by omega, low, high⟩

theorem isMiddle_half (ha : a.isFinite = true) (hb : b.isFinite = true) (hs : (a + b).isFinite = true) :
    IsMiddle (value a) (value b) (value (half (a + b))) := by
  have sum := isRounding_add ha hb
  have middle := isRounding_half hs
  have hc := isFinite_half hs
  have nonneg (h : 0 ≤ value a + value b) : 0 ≤ value (half (a + b)) :=
    middle.le_value hc onGrid_zero (by linarith [sum.le_value hs onGrid_zero h])
  have nonpos (h : value a + value b ≤ 0) : value (half (a + b)) ≤ 0 :=
    middle.value_le hc onGrid_zero (by linarith [sum.value_le hs onGrid_zero h])
  refine ⟨?_, nonneg, nonpos, fun h => ?_, fun h => ?_⟩
  · obtain none | some := eq_or_ne (value a + value b) 0
    · rw [le_antisymm (nonpos none.le) (nonneg none.ge)]
      simp
    · -- between the sum and its half there is a power of two, which rounding does not cross
      have large : smallest ≤ |value a + value b| := by
        obtain neg | pos := some.lt_or_gt
        · rw [abs_of_neg neg, neg_add]
          exact smallest_le_add (onGrid_value a).neg (onGrid_value b).neg (by linarith)
        · rw [abs_of_pos pos]
          exact smallest_le_add (onGrid_value a) (onGrid_value b) pos
      obtain ⟨k, hk, low, high⟩ := exists_two_zpow large
      have rounded := sum.abs_value_le (onGrid_two_zpow (by omega)) high.le
      have halved : |value (a + b) / 2| ≤ 2 ^ k := by
        rw [abs_div, abs_two]
        rw [two_zpow_add] at rounded
        linarith
      exact (middle.abs_value_le (onGrid_two_zpow hk) halved).trans low
  · exact middle.le_value hc (onGrid_value a) (by
      linarith [sum.le_value hs (onGrid_value a).double (by linarith)])
  · exact middle.value_le hc (onGrid_value b) (by
      linarith [sum.value_le hs (onGrid_value b).double (by linarith)])

/-- Nothing between two ends is out of reach of their middle. -/
theorem isFinite_offset (ha : a.isFinite = true) (hb : b.isFinite = true) (hp : p.isFinite = true)
    (hs : (a + b).isFinite = true) (hap : value a ≤ value p) (hpb : value p ≤ value b) :
    (p - half (a + b)).isFinite = true := by
  have reach := (isMiddle_half ha hb hs).distance_le_reach hap hpb
  refine (isRounding_sub hp (isFinite_half hs)).isFinite ?_ ?_ reach
  · exact max_rec (fun _ => (onGrid_value a).abs) (fun _ => (onGrid_value b).abs)
  · exact max_lt (abs_value_lt ha) (abs_value_lt hb)

end

/-! ### The scale -/

theorem value_zero : value (nat 0) = 0 := by
  exact_mod_cast (value_ofNat (by norm_num) : value (Float.ofNat 0) = (0 : ℕ))

/-- A number that may be infinite but is not negative. -/
def IsAmount (x : Float) : Prop := x.isNaN = false ∧ 0 ≤ value x

/-- Taking away an amount leaves a number that is not greater. -/
theorem sub_amount {x y : Float} (hx : x.isFinite = true) (hy : IsAmount y) :
    (x - y).isNaN = false ∧ value (x - y) ≤ value x := by
  cases hf : y.isFinite with
  | true =>
    have difference := isRounding_sub hx hf
    have low := (abs_lt.1 (abs_value_lt hx)).1
    exact ⟨difference.number, difference.le_of_le (onGrid_value x) low.le (by linarith [hy.2])⟩
  | false =>
    obtain ⟨number, lost⟩ := value_sub_infinite hx hy.1 hf hy.2
    exact ⟨number, lost ▸ (abs_lt.1 (abs_value_lt hx)).1.le⟩

theorem axisScale?_of_pos {content available : Float} (number : content.isNaN = false) (pos : 0 < value content) :
    Box.axisScale? content available = some (available / content) := by
  have extended : nat 0 < content := (lt_iff rfl number).2 (by rwa [value_zero])
  simp [Box.axisScale?, less, extended]

theorem isAmount_quotient {content available q : Float} (hc : content.isNaN = false)
    (ha : available.isFinite = true) (nonneg : 0 ≤ value available)
    (h : Box.axisScale? content available = some q) : IsAmount q := by
  unfold Box.axisScale? at h
  split at h
  · rename_i extended
    obtain rfl := Option.some.inj h
    have pos : 0 < value content := by
      have := (lt_iff (x := nat 0) rfl hc).1 (by simpa [less] using extended)
      rwa [value_zero] at this
    cases hf : content.isFinite with
    | true =>
      have quotient := isRounding_div ha hf pos.ne'
      exact ⟨quotient.number, quotient.le_of_ge onGrid_zero limit_pos.le (by positivity)⟩
    | false =>
      obtain ⟨number, zero⟩ := value_div_infinite ha hc hf
      exact ⟨number, zero.ge⟩
  · cases h

/-- The least of a cap and some amounts. -/
theorem least_amounts {cap : Float} (hcap : IsAmount cap) (amounts : List Float) (h : ∀ q ∈ amounts, IsAmount q) :
    IsAmount (amounts.foldl Scalar.least cap) ∧ value (amounts.foldl Scalar.least cap) ≤ value cap ∧
      ∀ q ∈ amounts, value (amounts.foldl Scalar.least cap) ≤ value q := by
  induction amounts generalizing cap with
  | nil => exact ⟨hcap, le_rfl, by simp⟩
  | cons q rest ih =>
    have hq := h q (by simp)
    obtain ⟨number, least⟩ := value_leastFloat hcap.1 hq.1
    have lesser : IsAmount (Scalar.least cap q) := ⟨number, least ▸ le_min hcap.2 hq.2⟩
    obtain ⟨amount, le, all⟩ := ih lesser fun r hr => h r (List.mem_cons_of_mem _ hr)
    have eq : value (Scalar.least cap q) = min (value cap) (value q) := least
    rw [eq] at le
    refine ⟨amount, le.trans (min_le_left _ _), fun r hr => ?_⟩
    obtain rfl | hr := List.mem_cons.1 hr
    · exact le.trans (min_le_right _ _)
    · exact all r hr

/-- A scale that does not exceed the cap and keeps an extent within the room for it. -/
structure IsScale (s content available : Float) : Prop where
  amount : IsAmount s
  capped : value s ≤ 2
  fits : ∀ q, Box.axisScale? content available = some q → value s ≤ value q

theorem fitScale_isScale {b : Box Float} {width height : Float} (hw : b.width.isNaN = false)
    (hh : b.height.isNaN = false) (roomW : width.isFinite = true ∧ 0 ≤ value width)
    (roomH : height.isFinite = true ∧ 0 ≤ value height) :
    IsScale (b.fitScale (nat 2) width height) b.width width ∧
      IsScale (b.fitScale (nat 2) width height) b.height height := by
  have listed (q : Float) : q ∈ [Box.axisScale? b.width width, Box.axisScale? b.height height].filterMap id ↔
      Box.axisScale? b.width width = some q ∨ Box.axisScale? b.height height = some q := by
    simp [eq_comm]
  obtain ⟨amount, capped, fits⟩ := @least_amounts (nat 2) ⟨rfl, by rw [value_two]; norm_num⟩
    ([Box.axisScale? b.width width, Box.axisScale? b.height height].filterMap id) fun q hq => by
      obtain h | h := (listed q).1 hq
      · exact isAmount_quotient hw roomW.1 roomW.2 h
      · exact isAmount_quotient hh roomH.1 roomH.2 h
  rw [value_two] at capped
  exact ⟨⟨amount, capped, fun q hq => fits q ((listed q).2 (.inl hq))⟩,
    ⟨amount, capped, fun q hq => fits q ((listed q).2 (.inr hq))⟩⟩

theorem smallest_le_limit : 4 * smallest ≤ limit := by
  have scaled : 4 * smallest = 2 ^ (2 + -1074 : ℤ) := by
    rw [two_zpow_add, ← smallest_eq]
    norm_num
  exact scaled ▸ two_zpow_le_limit (by norm_num)

/-- A quotient of at most a quarter of the limit by a power of two. -/
theorem quarter_div_eq (k : ℤ) : limit / 4 / 2 ^ k = 2 ^ (1022 - k) := by
  rw [limit_eq, show (1024 : ℤ) = 1022 - k + (k + 2) by omega, two_zpow_add (1022 - k), two_zpow_add k]
  have := two_zpow_pos k
  field_simp
  norm_num

/-- An extent that is not below a power of two is scaled to a quarter of the limit at most. -/
theorem IsScale.le_quarter {s content available : Float} (scale : IsScale s content available)
    (hc : content.isFinite = true)
    (room : available.isFinite = true ∧ 0 ≤ value available ∧ value available ≤ limit / 4) {k : ℤ}
    (hk : k < 1024) (low : 2 ^ k ≤ value content) : value s ≤ limit / 4 / 2 ^ k := by
  have pos_k := two_zpow_pos k
  have pos : 0 < value content := pos_k.trans_le low
  have grid : OnGrid (limit / 4 / 2 ^ k) := quarter_div_eq k ▸ onGrid_two_zpow (by omega)
  have quarter : 0 < limit / 4 / 2 ^ k := quarter_div_eq k ▸ two_zpow_pos _
  refine (scale.fits _ (axisScale?_of_pos (isNaN_of_isFinite hc) pos)).trans ?_
  refine (isRounding_div room.1 hc pos.ne').le_of_le grid (by linarith [limit_pos]) ?_
  exact div_le_div₀ (room.2.1.trans room.2.2) room.2.2 pos_k low

/-- An infinite extent is scaled to nothing. -/
theorem IsScale.eq_zero {s content available : Float} (scale : IsScale s content available)
    (number : content.isNaN = false) (hc : content.isFinite = false) (pos : 0 < value content)
    (ha : available.isFinite = true) : value s = 0 := by
  have fits := scale.fits _ (axisScale?_of_pos number pos)
  rw [(value_div_infinite ha number hc).2] at fits
  exact le_antisymm fits scale.amount.2

/-- An offset that is within an extent is scaled to at most half of the limit. -/
theorem scaled_le {extent offset : ℚ} {content available d s : Float} (hC : IsRounding extent content)
    (hd : IsRounding offset d) (within : |offset| ≤ extent) (scale : IsScale s content available)
    (room : available.isFinite = true ∧ 0 ≤ value available ∧ value available ≤ limit / 4) :
    |value d| * value s ≤ limit / 2 := by
  have top := limit_pos
  have nonneg := scale.amount.2
  by_cases pos : 0 < value content
  · cases hf : content.isFinite with
    | false =>
      rw [scale.eq_zero hC.number hf pos room.1, mul_zero]
      positivity
    | true =>
      have large : smallest ≤ value content := by
        simpa using smallest_le_add (onGrid_value content) onGrid_zero (by simpa using pos)
      -- the scale is bounded by the power of two below the content, the offset by the one above
      obtain ⟨k, hk, low, high⟩ := exists_two_zpow large
      have small : k < 1024 := by
        have lt := low.trans_lt ((le_abs_self _).trans_lt (abs_value_lt hf))
        rw [limit_eq] at lt
        exact (zpow_lt_zpow_iff_right₀ (one_lt_two : (1 : ℚ) < 2)).1 lt
      have bounded := scale.le_quarter hf room small low
      have short := hC.le_of_value_lt (onGrid_two_zpow (by omega)) (two_zpow_le_limit (by omega)) high
      have offset := hd.abs_value_le (onGrid_two_zpow (by omega)) (within.trans short)
      have pos_k := two_zpow_pos k
      calc |value d| * value s ≤ 2 ^ (k + 1) * (limit / 4 / 2 ^ k) :=
            mul_le_mul offset bounded nonneg (two_zpow_pos _).le
        _ = limit / 2 := by rw [two_zpow_add]; field_simp; norm_num
  · have tiny : extent ≤ smallest :=
      hC.le_of_value_lt onGrid_smallest (by linarith [smallest_le_limit, smallest_pos])
        ((not_lt.1 pos).trans_lt smallest_pos)
    have offset := hd.abs_value_le onGrid_smallest (within.trans tiny)
    calc |value d| * value s ≤ smallest * 2 := mul_le_mul offset scale.capped nonneg smallest_pos.le
      _ ≤ limit / 2 := by linarith [smallest_le_limit]

/-- What the margins leave of an extent is no more than the extent. -/
theorem room_le {f : Frame Float} (hp : f.padding.isFinite = true ∧ 0 ≤ value f.padding) {extent : Float}
    (he : extent.isFinite = true) (nonneg : 0 ≤ value extent) :
    (f.room extent).isFinite = true ∧ 0 ≤ value (f.room extent) ∧ value (f.room extent) ≤ value extent := by
  have double := isRounding_mul finite_two hp.1
  rw [value_two] at double
  have amount : IsAmount (nat 2 * f.padding) :=
    ⟨double.number, double.le_of_ge onGrid_zero limit_pos.le (by linarith [hp.2])⟩
  obtain ⟨number, le⟩ := sub_amount he amount
  obtain ⟨number', greatest⟩ := value_greatestFloat number (y := nat 0) rfl
  rw [value_zero] at greatest
  have bound : value (f.room extent) ≤ value extent := greatest ▸ max_le le nonneg
  have below : 0 ≤ value (f.room extent) := greatest ▸ le_max_right _ _
  refine ⟨isFinite_of_abs_lt number' ?_, below, bound⟩
  rw [abs_of_nonneg below]
  exact bound.trans_lt ((le_abs_self _).trans_lt (abs_value_lt he))

/-! ### One axis -/

theorem onGrid_limit_div (n : ℕ) (hn : n ≤ 2048) : OnGrid (limit / 2 ^ n) := by
  have power : limit / 2 ^ n = 2 ^ (1024 - n : ℤ) := by
    rw [limit_eq, zpow_sub₀ (by norm_num), zpow_natCast]
  exact power ▸ onGrid_two_zpow (by omega)

theorem onGrid_three_quarters : OnGrid (3 * limit / 4) := by
  have d : Digits (3 * 2 ^ 51) 971 := ⟨by norm_num, by norm_num, .inl (by norm_num)⟩
  have power : ((3 * 2 ^ 51 : ℕ) : ℚ) * 2 ^ (971 : ℤ) = 3 * limit / 4 := by
    rw [limit_eq, show (1024 : ℤ) = 53 + 971 by norm_num, two_zpow_add]
    generalize (2 : ℚ) ^ (971 : ℤ) = u
    norm_num
    ring
  exact power ▸ d.onGrid

section
variable {a b p s w available : Float}

/-- Whatever lies between the ends of an extent comes to lie on a modest canvas. -/
theorem isFinite_placed (ha : a.isFinite = true) (hb : b.isFinite = true) (hp : p.isFinite = true)
    (hap : value a ≤ value p) (hpb : value p ≤ value b) (hs : (a + b).isFinite = true)
    (scale : IsScale s (b - a) available)
    (room : available.isFinite = true ∧ 0 ≤ value available ∧ value available ≤ limit / 4)
    (canvas : w.isFinite = true ∧ 0 ≤ value w ∧ value w ≤ limit / 4) :
    ((p - half (a + b)) * s + half w).isFinite = true := by
  have top := limit_pos
  have hd := isFinite_offset ha hb hp hs hap hpb
  have offset := isRounding_sub hp (isFinite_half hs)
  have within := (isMiddle_half ha hb hs).distance_le_extent hap hpb
  have finite : s.isFinite = true := isFinite_of_abs_lt scale.amount.1 (by
    have two : (2 : ℚ) ^ (1 : ℤ) < limit := by
      rw [limit_eq]
      exact zpow_lt_zpow_right₀ (by norm_num) (by norm_num)
    rw [abs_of_nonneg scale.amount.2]
    linarith [scale.capped])
  have scaled : |value (p - half (a + b)) * value s| ≤ limit / 2 ^ 1 := by
    rw [abs_mul, abs_of_nonneg scale.amount.2, pow_one]
    exact scaled_le (isRounding_sub hb ha) offset within scale room
  have product := isRounding_mul hd finite
  have bounded := product.abs_value_le (onGrid_limit_div 1 (by norm_num)) scaled
  have middle := (isRounding_half canvas.1).abs_value_le (onGrid_limit_div 3 (by norm_num)) (by
    rw [abs_of_nonneg (by linarith)]
    linarith)
  have total := isRounding_add
    (product.isFinite (onGrid_limit_div 1 (by norm_num)) (by linarith) scaled) (isFinite_half canvas.1)
  refine total.isFinite onGrid_three_quarters (by linarith) ((abs_add_le _ _).trans ?_)
  linarith

/-- When the middle is not finite, nothing comes to lie anywhere. -/
theorem not_finite_placed (hp : p.isFinite = true) (hs : (a + b).isFinite = false)
    (canvas : w.isFinite = true) : ((p - half (a + b)) * s + half w).isFinite = false := by
  refine not_finite_add_left (not_finite_mul_left (not_finite_sub_right hp ?_) s) (isFinite_half canvas)
  rw [isFinite_half_iff, hs]

end

/-! ### Boxes -/

namespace Box

/-- A box with finite sides. -/
structure IsFinite (b : Box Float) : Prop where
  minX : b.minX.isFinite = true
  minY : b.minY.isFinite = true
  maxX : b.maxX.isFinite = true
  maxY : b.maxY.isFinite = true

structure Encloses (outer inner : Box Float) : Prop where
  minX : value outer.minX ≤ value inner.minX
  minY : value outer.minY ≤ value inner.minY
  maxX : value inner.maxX ≤ value outer.maxX
  maxY : value inner.maxY ≤ value outer.maxY

theorem Encloses.refl (b : Box Float) : b.Encloses b := ⟨le_rfl, le_rfl, le_rfl, le_rfl⟩

theorem Encloses.trans {a b c : Box Float} (h : a.Encloses b) (h' : b.Encloses c) : a.Encloses c :=
  ⟨h.minX.trans h'.minX, h.minY.trans h'.minY, h'.maxX.trans h.maxX, h'.maxY.trans h.maxY⟩

theorem isFinite_leastFloat {x y : Float} (hx : x.isFinite = true) (hy : y.isFinite = true) :
    (leastFloat x y).isFinite = true := by
  unfold leastFloat
  split_ifs <;> assumption

theorem isFinite_greatestFloat {x y : Float} (hx : x.isFinite = true) (hy : y.isFinite = true) :
    (greatestFloat x y).isFinite = true := by
  unfold greatestFloat
  split_ifs <;> assumption

theorem IsFinite.union {a b : Box Float} (ha : a.IsFinite) (hb : b.IsFinite) : (a.union b).IsFinite :=
  ⟨isFinite_leastFloat ha.minX hb.minX, isFinite_leastFloat ha.minY hb.minY,
    isFinite_greatestFloat ha.maxX hb.maxX, isFinite_greatestFloat ha.maxY hb.maxY⟩

theorem union_encloses {a b : Box Float} (ha : a.IsFinite) (hb : b.IsFinite) :
    (a.union b).Encloses a ∧ (a.union b).Encloses b := by
  have least {x y : Float} (hx : x.isFinite = true) (hy : y.isFinite = true) :
      value (Scalar.least x y) = min (value x) (value y) :=
    (value_leastFloat (isNaN_of_isFinite hx) (isNaN_of_isFinite hy)).2
  have greatest {x y : Float} (hx : x.isFinite = true) (hy : y.isFinite = true) :
      value (Scalar.greatest x y) = max (value x) (value y) :=
    (value_greatestFloat (isNaN_of_isFinite hx) (isNaN_of_isFinite hy)).2
  have minX := least ha.minX hb.minX
  have minY := least ha.minY hb.minY
  have maxX := greatest ha.maxX hb.maxX
  have maxY := greatest ha.maxY hb.maxY
  constructor
  · exact ⟨minX ▸ min_le_left _ _, minY ▸ min_le_left _ _,
      maxX ▸ le_max_left _ _, maxY ▸ le_max_left _ _⟩
  · exact ⟨minX ▸ min_le_right _ _, minY ▸ min_le_right _ _,
      maxX ▸ le_max_right _ _, maxY ▸ le_max_right _ _⟩

theorem foldl_union {a : Box Float} (ha : a.IsFinite) (rest : List (Box Float)) (h : ∀ b ∈ rest, b.IsFinite) :
    (rest.foldl union a).IsFinite ∧ (rest.foldl union a).Encloses a ∧
      ∀ b ∈ rest, (rest.foldl union a).Encloses b := by
  induction rest generalizing a with
  | nil => exact ⟨ha, .refl a, by simp⟩
  | cons b rest ih =>
    have hb := h b (by simp)
    obtain ⟨encloses, encloses'⟩ := union_encloses ha hb
    obtain ⟨finite, outer, all⟩ := ih (ha.union hb) fun c hc => h c (List.mem_cons_of_mem _ hc)
    refine ⟨finite, outer.trans encloses, fun c hc => ?_⟩
    obtain rfl | hc := List.mem_cons.1 hc
    · exact outer.trans encloses'
    · exact all c hc

/-- The hull of finite boxes is finite and encloses them. -/
theorem hull?_encloses {boxes : List (Box Float)} {b : Box Float} (h : hull? boxes = some b)
    (finite : ∀ c ∈ boxes, c.IsFinite) : b.IsFinite ∧ ∀ c ∈ boxes, b.Encloses c := by
  cases boxes with
  | nil => cases h
  | cons a rest =>
    obtain rfl := Option.some.inj h
    obtain ⟨hf, first, all⟩ := foldl_union (finite a (by simp)) rest fun c hc =>
      finite c (List.mem_cons_of_mem _ hc)
    refine ⟨hf, fun c hc => ?_⟩
    obtain rfl | hc := List.mem_cons.1 hc
    · exact first
    · exact all c hc

end Box

/-! ### All nodes -/

open LayoutEngine (isPlaced)

/-- The box of the places of some nodes. -/
def boxOf? (nodes : List GraphNode) : Option (Box Float) :=
  Box.hull? ((nodes.map GraphNode.position).map Box.ofPoint)

/-- Is the middle of the places of some nodes finite on both axes? -/
def isCentered (nodes : List GraphNode) : Bool :=
  (boxOf? nodes).all fun b => b.center.x.isFinite && b.center.y.isFinite

theorem isPlaced_iff (n : GraphNode) : isPlaced n = true ↔ n.x.isFinite = true ∧ n.y.isFinite = true := by
  simp [isPlaced]

theorem normalize_eq (o : LayoutOptions) {nodes : List GraphNode} {b : Box Float} (h : boxOf? nodes = some b) :
    o.normalize nodes = nodes.map fun n => n.moveTo (o.frame.place b n.position) := by
  unfold boxOf? at h
  unfold LayoutOptions.normalize Frame.placeAll
  rw [h]
  simp only [List.map_map, List.zipWith_map_right, List.zipWith_self, Function.comp]

theorem exists_boxOf? {nodes : List GraphNode} (h : nodes ≠ []) : ∃ b, boxOf? nodes = some b := by
  cases nodes with
  | nil => exact absurd rfl h
  | cons n rest => exact ⟨_, rfl⟩

theorem mem_normalize {o : LayoutOptions} {nodes : List GraphNode} {n : GraphNode} (h : n ∈ o.normalize nodes) :
    ∃ b m, boxOf? nodes = some b ∧ m ∈ nodes ∧ n = m.moveTo (o.frame.place b m.position) := by
  have some : nodes ≠ [] := by rintro rfl; cases h
  obtain ⟨b, hb⟩ := exists_boxOf? some
  rw [normalize_eq o hb] at h
  obtain ⟨m, hm, rfl⟩ := List.mem_map.1 h
  exact ⟨b, m, hb, hm, rfl⟩

theorem boxOf?_encloses {nodes : List GraphNode} {b : Box Float} (h : boxOf? nodes = some b)
    (placed : ∀ n ∈ nodes, isPlaced n = true) :
    b.IsFinite ∧ ∀ n ∈ nodes, b.Encloses (.ofPoint n.position) := by
  obtain ⟨finite, encloses⟩ := Box.hull?_encloses h fun c hc => by
    obtain ⟨p, hp, rfl⟩ := List.mem_map.1 hc
    obtain ⟨n, hn, rfl⟩ := List.mem_map.1 hp
    obtain ⟨x, y⟩ := (isPlaced_iff n).1 (placed n hn)
    exact ⟨x, y, x, y⟩
  exact ⟨finite, fun n hn => encloses _ (List.mem_map_of_mem (List.mem_map_of_mem hn))⟩

theorem Box.center_finite_iff (b : Box Float) :
    (b.center.x.isFinite && b.center.y.isFinite) = ((b.minX + b.maxX).isFinite && (b.minY + b.maxY).isFinite) := by
  simp only [Box.center, isFinite_half_iff]

/-- Options without fault have a canvas of finite extents and margins that take nothing away
from nothing. -/
theorem frame_of_usable {o : LayoutOptions} (h : o.fault? = none) :
    (o.width.isFinite = true ∧ 0 ≤ value o.width) ∧ (o.height.isFinite = true ∧ 0 ≤ value o.height) ∧
      o.padding.isFinite = true ∧ 0 ≤ value o.padding := by
  have zero : value 0.0 = 0 := by
    have stored : parts 0.0 = .zero .positive := rfl
    rw [value, stored]
    rfl
  have above {x : Float} (hx : isValidExtent x = true) : x.isFinite = true ∧ 0 ≤ value x := by
    simp only [isValidExtent, Bool.and_eq_true, decide_eq_true_eq] at hx
    refine ⟨hx.1, ?_⟩
    have := (lt_iff (x := 0.0) rfl (isNaN_of_isFinite hx.1)).1 hx.2
    rw [zero] at this
    exact this.le
  unfold LayoutOptions.fault? at h
  split at h
  · cases h
  · rename_i extents
    split at h
    · cases h
    · rename_i margins
      simp only [Bool.or_eq_true, Bool.not_eq_true', decide_eq_true_eq, not_or, Bool.not_eq_false] at extents margins
      refine ⟨above extents.1, above extents.2, margins.1, not_lt.1 fun below => margins.2 ?_⟩
      exact (lt_iff (isNaN_of_isFinite margins.1) rfl).2 (by rwa [zero])

/-- Nodes whose middle is finite are placed on a modest canvas. -/
theorem normalize_placed {o : LayoutOptions} (usable : o.fault? = none)
    (modest : value o.width ≤ limit / 4 ∧ value o.height ≤ limit / 4) {nodes : List GraphNode}
    (placed : ∀ n ∈ nodes, isPlaced n = true) (centered : isCentered nodes = true) :
    ∀ n ∈ o.normalize nodes, isPlaced n = true := by
  intro n hn
  obtain ⟨b, m, hb, hm, rfl⟩ := mem_normalize hn
  obtain ⟨finite, encloses⟩ := boxOf?_encloses hb placed
  have inside := encloses m hm
  obtain ⟨x, y⟩ := (isPlaced_iff m).1 (placed m hm)
  simp only [isCentered, hb, Option.all_some, Box.center_finite_iff, Bool.and_eq_true] at centered
  obtain ⟨width, height, padding⟩ := frame_of_usable usable
  obtain ⟨roomW, roomW', fitsW⟩ := room_le (f := o.frame) padding width.1 width.2
  obtain ⟨roomH, roomH', fitsH⟩ := room_le (f := o.frame) padding height.1 height.2
  obtain ⟨scaleX, scaleY⟩ := fitScale_isScale (b := b) (isRounding_sub finite.maxX finite.minX).number
    (isRounding_sub finite.maxY finite.minY).number ⟨roomW, roomW'⟩ ⟨roomH, roomH'⟩
  refine (isPlaced_iff _).2 ⟨?_, ?_⟩
  · exact isFinite_placed finite.minX finite.maxX x inside.minX inside.maxX centered.1 scaleX
      ⟨roomW, roomW', fitsW.trans modest.1⟩ ⟨width.1, width.2, modest.1⟩
  · exact isFinite_placed finite.minY finite.maxY y inside.minY inside.maxY centered.2 scaleY
      ⟨roomH, roomH', fitsH.trans modest.2⟩ ⟨height.1, height.2, modest.2⟩

/-- Nodes whose middle is not finite are placed nowhere, whatever the canvas. -/
theorem normalize_unplaced {o : LayoutOptions} (usable : o.fault? = none) {nodes : List GraphNode}
    (placed : ∀ n ∈ nodes, isPlaced n = true) (lost : isCentered nodes = false) :
    o.normalize nodes ≠ [] ∧ ∀ n ∈ o.normalize nodes, isPlaced n = false := by
  have some : nodes ≠ [] := by rintro rfl; cases lost
  obtain ⟨b, hb⟩ := exists_boxOf? some
  constructor
  · rw [normalize_eq o hb]
    simpa using some
  · intro n hn
    obtain ⟨b', m, hb', hm, rfl⟩ := mem_normalize hn
    obtain rfl : b = b' := Option.some.inj (hb.symm.trans hb')
    obtain ⟨x, y⟩ := (isPlaced_iff m).1 (placed m hm)
    obtain ⟨width, height, -⟩ := frame_of_usable usable
    simp only [isCentered, hb, Option.all_some, Box.center_finite_iff, Bool.and_eq_false_iff] at lost
    rw [isPlaced, Bool.and_eq_false_iff]
    exact lost.imp (not_finite_placed x · width.1) (not_finite_placed y · height.1)

end CodeAtlas
