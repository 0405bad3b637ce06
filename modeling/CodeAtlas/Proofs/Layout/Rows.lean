import CodeAtlas.Proofs.Float.Order
import CodeAtlas.Proofs.Layout.Neighbors
import CodeAtlas.Proofs.Layout.Recall

/-! Hierarchical layouts: children below their parents.

Every edge leads to a greater level (`level_lt`), a greater level is in a lower row
(`rowAt_le`), and fitting the rows into a canvas keeps their order, as each of its steps
rounds an increasing function (`fitted_le`). So no child is above its parent. For a child to be
below, rounding must not use up the distance of two rows. All it changes is worth a few of the
last of 53 bits of the height (`abs_fitted_sub_le`), so rows that the scale leaves further apart
are still apart in the end (`Roomy.fitted_lt`). Margins may leave no room at all: then the scale
is zero and there is one row (`rows_may_coincide`). -/
namespace CodeAtlas
open Binary64 LayoutEngine Relation Scalar

/-! ### Levels -/

namespace GraphData

variable {d : GraphData} {a b : String} {i j : Nat}

/-- An edge leads from one id to another. -/
def LeadsTo (d : GraphData) (a b : String) : Prop := ∃ e ∈ d.edges, e.source = a ∧ e.target = b

/-- No way along the edges leads back to where it started. -/
def Acyclic (d : GraphData) : Prop := ∀ id, ¬TransGen d.LeadsTo id id

/-- There is no cycle where every edge leads to a greater rank. -/
theorem acyclic_of_rank (rank : String → Nat) (h : ∀ e ∈ d.edges, rank e.source < rank e.target) : d.Acyclic := by
  have hstep {a b : String} (hleads : d.LeadsTo a b) : rank a < rank b := by
    obtain ⟨e, he, rfl, rfl⟩ := hleads
    exact h e he
  have hrun {a b : String} (hway : TransGen d.LeadsTo a b) : rank a < rank b := by
    induction hway with
    | single hleads => exact hstep hleads
    | tail _ hleads ih => exact ih.trans (hstep hleads)
  exact fun id hcycle => Nat.lt_irrefl _ (hrun hcycle)

theorem Feeds.leadsTo (h : d.Feeds i j) : d.LeadsTo (d.ids.getD i "") (d.ids.getD j "") := by
  obtain ⟨-, e, he, ⟨hsource, -⟩, ⟨htarget, -⟩⟩ := h
  refine ⟨e, he, ?_, ?_⟩
  · rw [List.getD_eq_getElem?_getD, hsource, Option.getD_some]
  · rw [List.getD_eq_getElem?_getD, htarget, Option.getD_some]

theorem Acyclic.feeds (acyclic : d.Acyclic) (i : Nat) : ¬TransGen d.Feeds i i :=
  fun hcycle => acyclic _ (TransGen.lift (fun i => d.ids.getD i "") (fun _ _ => Feeds.leadsTo) _ _ hcycle)

theorem LeadsTo.feeds (distinct : d.ids.Nodup) (hi : d.ids[i]? = some a) (hj : d.ids[j]? = some b) (hne : a ≠ b)
    (h : d.LeadsTo a b) : d.Feeds i j := by
  obtain ⟨e, he, rfl, rfl⟩ := h
  refine ⟨?_, e, he, (lastAt_iff_of_nodup distinct).mpr hi, (lastAt_iff_of_nodup distinct).mpr hj⟩
  rintro rfl
  exact hne (Option.some.inj (hi.symm.trans hj))

end GraphData

namespace Strategy

variable {d : GraphData} {o : LayoutOptions} {a b : String} {i j : Nat}

/-- Where there is no cycle, every level is a height. -/
theorem exists_level (acyclic : d.Acyclic) (hi : i < d.nodes.length) :
    (levels d)[i]? = some ((levels d).getD i 0) ∧ d.Height i ((levels d).getD i 0) := by
  obtain ⟨t, final, hlevels, h⟩ := exists_levels d
  obtain ⟨k, -, hk, hheight⟩ := h.finish_of_not_circling hi fun ⟨u, hcycle, _⟩ => acyclic.feeds u hcycle
  have hfound : (levels d)[i]? = some k := by rw [levels, hlevels, Option.getD_some, hk]
  rw [List.getD_eq_getElem?_getD, hfound, Option.getD_some]
  exact ⟨rfl, hheight⟩

/-- Every edge leads to a greater level, where there is no cycle. -/
theorem level_lt (distinct : d.ids.Nodup) (acyclic : d.Acyclic) (hi : d.ids[i]? = some a) (hj : d.ids[j]? = some b)
    (h : d.LeadsTo a b) : (levels d).getD i 0 < (levels d).getD j 0 := by
  have hne : a ≠ b := by
    rintro rfl
    exact acyclic a (.single h)
  have hfeeds := h.feeds distinct hi hj hne
  obtain ⟨k, hk, hheight⟩ := (exists_level acyclic hfeeds.target_lt).2.lt_of_feeds hfeeds
  rwa [(exists_level acyclic hfeeds.source_lt).2.unique hheight]

/-- What nothing leads to is on the first level. -/
theorem level_eq_zero (acyclic : d.Acyclic) (hi : d.ids[i]? = some a) (h : ∀ id, ¬d.LeadsTo id a) :
    (levels d).getD i 0 = 0 := by
  have hlt : i < d.nodes.length := by simpa [GraphData.ids] using (List.getElem?_eq_some_iff.mp hi).1
  refine (exists_level acyclic hlt).2.unique (GraphData.height_zero.mpr fun u hfeeds => ?_)
  have hleads := hfeeds.leadsTo
  rw [List.getD_eq_getElem?_getD (i := i), hi, Option.getD_some] at hleads
  exact h _ hleads

/-! ### Rows -/

def rowCount (d : GraphData) : Nat := ((levels d).map (· + 1)).foldl max 0

theorem level_lt_rowCount (acyclic : d.Acyclic) (hi : i < d.nodes.length) :
    (levels d).getD i 0 < rowCount d := by
  have hlisted := List.mem_of_getElem? (exists_level acyclic hi).1
  rw [rowCount, List.foldl_max]
  exact le_max_of_le_right (List.le_max?_getD_of_mem (List.mem_map_of_mem hlisted))

/-- The distance between two rows, before the layout is fitted into its canvas. -/
def rowHeight (d : GraphData) (o : LayoutOptions) : Float := o.height / (rowCount d + 1).toFloat

/-- Where the row of a level is. -/
def rowAt (d : GraphData) (o : LayoutOptions) (level : Nat) : Float := rowHeight d o * (level + 1).toFloat

theorem hierarchical_eq (d : GraphData) (o : LayoutOptions) :
    ∃ x : Nat → Float, ∀ drawn,
      hierarchical drawn d o = .ok (placeEach d fun i => (x i, rowAt d o ((levels d).getD i 0)), .placed) :=
  ⟨_, fun _ => rfl⟩

/-- How much the rows are moved apart when the layout is fitted into its canvas. Nothing is
drawn for a hierarchical layout, so it does not matter what would be. -/
def rowScale (d : GraphData) (o : LayoutOptions) : Float :=
  match hierarchical (.ofSeed 0) d o with
  | .ok (placed, _) => (boxOf? placed.nodes).elim 0.0 o.frame.scale
  | .error _ => 0.0

theorem value_rowHeight_nonneg (hheight : o.height.isFinite = true ∧ 0 ≤ value o.height) :
    0 ≤ value (rowHeight d o) := by
  have hcount := isRounding_ofNat (rowCount d + 1)
  have hpos : 0 < value (rowCount d + 1).toFloat := by
    have hone := value_ofNat_le (show 1 ≤ rowCount d + 1 by omega)
    rw [value_ofNat (n := 1) (by norm_num)] at hone
    have : ((1 : ℕ) : ℚ) = 1 := Nat.cast_one
    linarith
  cases hfinite : (rowCount d + 1).toFloat.isFinite with
  | true =>
    exact (isRounding_div hheight.1 hfinite hpos.ne').le_of_ge onGrid_zero limit_pos.le
      (div_nonneg hheight.2 hpos.le)
  | false => exact (value_div_infinite hheight.1 hcount.number hfinite).2.ge

/-- Rows that are somewhere are in the order of their levels. -/
theorem rowAt_le (hheight : o.height.isFinite = true ∧ 0 ≤ value o.height) (hi : (rowAt d o i).isFinite = true)
    (hj : (rowAt d o j).isFinite = true) (hle : i ≤ j) : value (rowAt d o i) ≤ value (rowAt d o j) := by
  have hparts {level : Nat} (h : (rowAt d o level).isFinite = true) :
      (rowHeight d o).isFinite = true ∧ (level + 1).toFloat.isFinite = true := by
    refine ⟨Bool.not_eq_false _ |>.mp fun hlost => ?_, Bool.not_eq_false _ |>.mp fun hlost => ?_⟩
    · exact absurd h (by rw [rowAt, not_finite_mul_left hlost]; decide)
    · exact absurd h (by rw [rowAt, not_finite_mul_right _ hlost]; decide)
  obtain ⟨hrow, hlevel⟩ := hparts hi
  exact value_mul_le_mul_left hrow (value_rowHeight_nonneg hheight) hlevel (hparts hj).2
    (value_ofNat_le (Nat.succ_le_succ hle))

end Strategy

/-! ### One axis -/

theorem two_zpow_add_natCast (k : ℤ) (n : ℕ) : (2 : ℚ) ^ (k + n) = 2 ^ n * 2 ^ k := by
  rw [two_zpow_add, zpow_natCast, mul_comm]

section
variable {x x' c s h : Float}

/-- A coordinate that is moved, scaled and moved again is somewhere only if it was somewhere in between. -/
theorem finite_of_fitted (hx : x.isFinite = true) (hh : h.isFinite = true)
    (hfitted : ((x - c) * s + h).isFinite = true) :
    c.isFinite = true ∧ (x - c).isFinite = true ∧ ((x - c) * s).isFinite = true := by
  have hproduct : ((x - c) * s).isFinite = true := by
    by_contra hlost
    rw [not_finite_add_left (by simpa using hlost) hh] at hfitted
    contradiction
  have hoffset : (x - c).isFinite = true := by
    by_contra hlost
    rw [not_finite_mul_left (by simpa using hlost)] at hproduct
    contradiction
  refine ⟨?_, hoffset, hproduct⟩
  by_contra hlost
  rw [not_finite_sub_right hx (by simpa using hlost)] at hoffset
  contradiction

/-- Fitting keeps the order. -/
theorem fitted_le (hx : x.isFinite = true) (hx' : x'.isFinite = true) (hs : s.isFinite = true) (hnonneg : 0 ≤ value s)
    (hh : h.isFinite = true) (hfitted : ((x - c) * s + h).isFinite = true)
    (hfitted' : ((x' - c) * s + h).isFinite = true) (hle : value x ≤ value x') :
    value ((x - c) * s + h) ≤ value ((x' - c) * s + h) := by
  obtain ⟨hc, hoffset, hproduct⟩ := finite_of_fitted hx hh hfitted
  obtain ⟨-, hoffset', hproduct'⟩ := finite_of_fitted hx' hh hfitted'
  exact value_add_le_add_right hh hproduct hproduct'
    (value_mul_le_mul_right hs hnonneg hoffset hoffset' (value_sub_le_sub_right hc hx hx' hle))

/-- On a canvas of a usual size, fitting errs by a few units of the last place. -/
theorem abs_fitted_sub_le {k : ℤ} (hlow : -1020 ≤ k) (hhigh : k ≤ 1019) (hx : x.isFinite = true)
    (hc : c.isFinite = true) (hs : s.isFinite = true) (hh : h.isFinite = true)
    (hoffset : |value x - value c| ≤ 2 ^ (k + 2)) (hscale : 0 ≤ value s ∧ value s ≤ 2) (hhalf : |value h| ≤ 2 ^ k) :
    ((x - c) * s + h).isFinite = true ∧
      |value ((x - c) * s + h) - ((value x - value c) * value s + value h)| ≤ 8 * 2 ^ (k - 51) := by
  obtain ⟨hd, hd', herr⟩ := (isRounding_sub hx hc).within (by omega) (by omega) hoffset
  have hproduct : |value (x - c) * value s| ≤ 2 ^ (k + 3) := by
    rw [abs_mul, abs_of_nonneg hscale.1, show k + 3 = k + 2 + 1 by omega, two_zpow_add, zpow_one]
    exact mul_le_mul hd' hscale.2 hscale.1 (two_zpow_pos _).le
  obtain ⟨hp, hp', herr'⟩ := (isRounding_mul hd hs).within (by omega) (by omega) hproduct
  have hsum : |value ((x - c) * s) + value h| ≤ 2 ^ (k + 4) := by
    have hsmall := two_zpow_pos k
    rw [two_zpow_add] at hp' ⊢
    norm_num at hp' ⊢
    linarith [abs_add_le (value ((x - c) * s)) (value h)]
  obtain ⟨hy, -, herr''⟩ := (isRounding_add hp hh).within (by omega) (by omega) hsum
  refine ⟨hy, ?_⟩
  rw [show k + 2 - 53 = k - 51 by omega] at herr
  rw [show k + 3 - 53 = k - 51 + (1 : ℕ) by omega, two_zpow_add_natCast] at herr'
  rw [show k + 4 - 53 = k - 51 + (2 : ℕ) by omega, two_zpow_add_natCast] at herr''
  have hscaled : |(value (x - c) - (value x - value c)) * value s| ≤ 2 ^ (k - 51) * 2 := by
    rw [abs_mul, abs_of_nonneg hscale.1]
    exact mul_le_mul herr hscale.2 hscale.1 (two_zpow_pos _).le
  generalize (2 : ℚ) ^ (k - 51) = u at *
  rw [abs_le] at *
  constructor <;> linarith

end

/-! ### The distance of rows -/

/-- Rounding changes a number by less than a factor of two. -/
theorem factor_of_rounding {q : ℚ} {x : Float} (h : IsRounding q x) (hlarge : smallest ≤ q) (hsmall : q < limit) :
    q ≤ 2 * value x ∧ value x ≤ 2 * q := by
  obtain ⟨k, hk, hlow, hhigh⟩ := exists_two_zpow hlarge
  have hbelow := h.le_of_ge (onGrid_two_zpow hk) (hlow.trans hsmall.le) hlow
  have habove := h.le_of_le (onGrid_two_zpow (by omega)) (by linarith [two_zpow_pos (k + 1), limit_pos]) hhigh.le
  rw [two_zpow_add, zpow_one] at hhigh habove
  constructor <;> linarith

namespace Strategy

variable {d : GraphData} {o : LayoutOptions} {c s : Float} {i j : Nat} {k : ℤ}

/-- A canvas of a usual height, between two powers of two, and not too many rows on it. -/
structure Roomy (d : GraphData) (o : LayoutOptions) (k : ℤ) : Prop where
  above : -1020 ≤ k
  below : k ≤ 1019
  finite : o.height.isFinite = true
  low : 2 ^ k ≤ value o.height
  high : value o.height < 2 ^ (k + 1)
  few : rowCount d + 1 ≤ 2 ^ 46

namespace Roomy

theorem value_count (h : Roomy d o k) {n : Nat} (hn : n ≤ rowCount d) :
    (n + 1).toFloat.isFinite = true ∧ value (n + 1).toFloat = n + 1 := by
  have hfew := h.few
  refine ⟨isFinite_ofNat (by omega), ?_⟩
  rw [Nat.toFloat, value_ofNat (by omega)]
  push_cast
  rfl

theorem rowHeight_bounds (h : Roomy d o k) :
    (rowHeight d o).isFinite = true ∧ 0 ≤ value (rowHeight d o) ∧
      2 ^ k ≤ 2 * ((rowCount d + 1) * value (rowHeight d o)) ∧
      (rowCount d + 1) * value (rowHeight d o) ≤ 2 ^ (k + 2) := by
  obtain ⟨hfinite, hcount⟩ := h.value_count le_rfl
  have hnonneg : 0 ≤ value o.height := (two_zpow_pos k).le.trans h.low
  have hone : (1 : ℚ) ≤ rowCount d + 1 := by linarith [(rowCount d).cast_nonneg (α := ℚ)]
  have hpos : (0 : ℚ) < rowCount d + 1 := by linarith
  have hquotient : IsRounding (value o.height / (rowCount d + 1)) (rowHeight d o) := by
    rw [← hcount] at hpos ⊢
    exact isRounding_div h.finite hfinite hpos.ne'
  have hle : value o.height / (rowCount d + 1) ≤ 2 ^ (k + 1) := (div_le_self hnonneg hone).trans h.high.le
  have hlarge : smallest ≤ value o.height / (rowCount d + 1) := by
    rw [le_div_iff₀ hpos, smallest_eq]
    calc (2 : ℚ) ^ (-1074 : ℤ) * (rowCount d + 1) ≤ 2 ^ (-1074 : ℤ) * 2 ^ (46 : ℤ) :=
          mul_le_mul_of_nonneg_left (by exact_mod_cast h.few) (two_zpow_pos _).le
      _ = 2 ^ (-1028 : ℤ) := (two_zpow_add _ _).symm
      _ ≤ 2 ^ k := zpow_le_zpow_right₀ (by norm_num) (by have := h.above; omega)
      _ ≤ value o.height := h.low
  have hsize : |value o.height / (rowCount d + 1)| ≤ 2 ^ (k + 1) := by rwa [abs_of_nonneg (by positivity)]
  have hwithin := hquotient.within (by have := h.above; omega) (by have := h.below; omega) hsize
  have hsmall : value o.height / (rowCount d + 1) < limit := by
    rw [limit_eq]
    exact hle.trans_lt (zpow_lt_zpow_right₀ (by norm_num) (by have := h.below; omega))
  obtain ⟨hlower, hupper⟩ := factor_of_rounding hquotient hlarge hsmall
  rw [div_le_iff₀ hpos] at hlower
  rw [mul_div_assoc', le_div_iff₀ hpos] at hupper
  refine ⟨hwithin.1, value_rowHeight_nonneg ⟨h.finite, hnonneg⟩, ?_, ?_⟩
  · linarith [h.low]
  · rw [show k + 2 = k + 1 + 1 by omega, two_zpow_add, zpow_one]
    linarith [h.high]

/-- Rows are on the canvas, or beyond it by no more than its height, and nearly where they would
be without rounding. -/
theorem rowAt_bounds (h : Roomy d o k) (hi : i < rowCount d) :
    (rowAt d o i).isFinite = true ∧ 0 ≤ value (rowAt d o i) ∧ value (rowAt d o i) ≤ 2 ^ (k + 2) ∧
      |value (rowAt d o i) - value (rowHeight d o) * (i + 1)| ≤ 2 ^ (k - 51) := by
  obtain ⟨hfinite, hnonneg, -, hhigh⟩ := h.rowHeight_bounds
  obtain ⟨hfinite', hlevel⟩ := h.value_count hi.le
  have hproduct := isRounding_mul hfinite hfinite'
  rw [hlevel] at hproduct
  have hle : (i + 1 : ℚ) ≤ rowCount d + 1 := by exact_mod_cast Nat.succ_le_succ hi.le
  have hexact : 0 ≤ value (rowHeight d o) * (i + 1) := by positivity
  have hsize : |value (rowHeight d o) * (i + 1)| ≤ 2 ^ (k + 2) := by
    rw [abs_of_nonneg hexact]
    exact (mul_le_mul_of_nonneg_left hle hnonneg).trans (by linarith)
  obtain ⟨hrow, hwithin, herr⟩ := hproduct.within (by have := h.above; omega) (by have := h.below; omega) hsize
  rw [show k + 2 - 53 = k - 51 by omega] at herr
  exact ⟨hrow, hproduct.le_of_ge onGrid_zero limit_pos.le hexact, (abs_le.mp hwithin).2, herr⟩

/-- Rounding takes little from the distance of two rows. -/
theorem step_le (h : Roomy d o k) (hij : i < j) (hj : j < rowCount d) :
    value (rowHeight d o) - 2 * 2 ^ (k - 51) ≤ value (rowAt d o j) - value (rowAt d o i) := by
  obtain ⟨-, hnonneg, -⟩ := h.rowHeight_bounds
  obtain ⟨-, -, -, hrow⟩ := h.rowAt_bounds (hij.trans hj)
  obtain ⟨-, -, -, hrow'⟩ := h.rowAt_bounds hj
  have hlevels : value (rowHeight d o) ≤ value (rowHeight d o) * (j + 1) - value (rowHeight d o) * (i + 1) := by
    have hcast : (i + 1 : ℚ) ≤ j := by exact_mod_cast hij
    rw [← mul_sub]
    exact le_mul_of_one_le_right hnonneg (by linarith)
  rw [abs_le] at hrow hrow'
  linarith

theorem half_bounds (h : Roomy d o k) : (half o.height).isFinite = true ∧ |value (half o.height)| ≤ 2 ^ k := by
  have hhigh := h.high
  rw [two_zpow_add, zpow_one] at hhigh
  have hsize : |value o.height / 2| ≤ 2 ^ k := by
    rw [abs_of_nonneg (by linarith [two_zpow_pos k, h.low])]
    linarith
  have hgrid : OnGrid (2 ^ k) := onGrid_two_zpow (by have := h.above; omega)
  exact ⟨isFinite_half h.finite, (isRounding_half h.finite).abs_value_le hgrid hsize⟩

/-- Rows that are far enough apart for their number are still apart when they have been fitted. -/
theorem fitted_lt (h : Roomy d o k) (hc : c.isFinite = true ∧ 0 ≤ value c ∧ value c ≤ 2 ^ (k + 2))
    (hs : s.isFinite = true) (hscale : 0 ≤ value s ∧ value s ≤ 2) (hapart : (rowCount d + 1 : ℚ) ≤ 2 ^ 45 * value s)
    (hij : i < j) (hj : j < rowCount d) :
    (rowAt d o i - c) * s + half o.height < (rowAt d o j - c) * s + half o.height := by
  have hfitted {level : Nat} (hlevel : level < rowCount d) :
      ((rowAt d o level - c) * s + half o.height).isFinite = true ∧
        |value ((rowAt d o level - c) * s + half o.height) -
          ((value (rowAt d o level) - value c) * value s + value (half o.height))| ≤ 8 * 2 ^ (k - 51) := by
    obtain ⟨hrow, hlow, hhigh, -⟩ := h.rowAt_bounds hlevel
    refine abs_fitted_sub_le h.above h.below hrow hc.1 hs h.half_bounds.1 (abs_le.mpr ?_) hscale h.half_bounds.2
    constructor <;> linarith [hc.2.1, hc.2.2]
  obtain ⟨hfinite, herr⟩ := hfitted (hij.trans hj)
  obtain ⟨hfinite', herr'⟩ := hfitted hj
  rw [lt_iff (isNaN_of_isFinite hfinite) (isNaN_of_isFinite hfinite')]
  -- one row at the scale is worth more than all errors
  have hgap : 32 * 2 ^ (k - 51) ≤ value (rowHeight d o) * value s := by
    obtain ⟨-, hnonneg, hfar, -⟩ := h.rowHeight_bounds
    rw [show k = k - 51 + (51 : ℕ) by omega, two_zpow_add_natCast] at hfar
    have hmost := mul_le_mul_of_nonneg_right hapart hnonneg
    nlinarith
  have hscaled := mul_le_mul_of_nonneg_right (h.step_le hij hj) hscale.1
  have hpos := two_zpow_pos (k - 51)
  rw [abs_le] at herr herr'
  nlinarith [hscale.2]

end Roomy

end Strategy

/-! ### The box of the rows -/

/-- A hull reaches up and down just as far as some of its boxes. -/
theorem Box.foldl_union_sides (a : Box Float) (rest : List (Box Float)) :
    (∃ c ∈ a :: rest, (rest.foldl union a).minY = c.minY) ∧
      ∃ c ∈ a :: rest, (rest.foldl union a).maxY = c.maxY := by
  have hleast (x y : Float) : least x y = x ∨ least x y = y := by
    change leastFloat x y = x ∨ leastFloat x y = y
    unfold leastFloat
    split_ifs <;> simp
  have hgreatest (x y : Float) : greatest x y = x ∨ greatest x y = y := by
    change greatestFloat x y = x ∨ greatestFloat x y = y
    unfold greatestFloat
    split_ifs <;> simp
  induction rest generalizing a with
  | nil => exact ⟨⟨a, List.mem_cons_self, rfl⟩, a, List.mem_cons_self, rfl⟩
  | cons b rest ih =>
    obtain ⟨⟨c, hc, hmin⟩, c', hc', hmax⟩ := ih (a.union b)
    rw [List.foldl_cons, hmin, hmax]
    constructor
    · rcases List.mem_cons.mp hc with rfl | hc
      · rcases hleast a.minY b.minY with h | h
        · exact ⟨a, by simp, h⟩
        · exact ⟨b, by simp, h⟩
      · exact ⟨c, by simp [hc], rfl⟩
    · rcases List.mem_cons.mp hc' with rfl | hc'
      · rcases hgreatest a.maxY b.maxY with h | h
        · exact ⟨a, by simp, h⟩
        · exact ⟨b, by simp, h⟩
      · exact ⟨c', by simp [hc'], rfl⟩

theorem boxOf?_sides {nodes : List GraphNode} {b : Box Float} (h : boxOf? nodes = some b) :
    (∃ n ∈ nodes, b.minY = n.y) ∧ ∃ n ∈ nodes, b.maxY = n.y := by
  cases nodes with
  | nil => cases h
  | cons n rest =>
    obtain rfl := Option.some.inj h
    obtain ⟨⟨c, hc, hmin⟩, c', hc', hmax⟩ := Box.foldl_union_sides (.ofPoint n.position)
      ((rest.map GraphNode.position).map Box.ofPoint)
    rw [← List.map_cons, ← List.map_cons, List.map_map] at hc hc'
    obtain ⟨m, hm, rfl⟩ := List.mem_map.mp hc
    obtain ⟨m', hm', rfl⟩ := List.mem_map.mp hc'
    exact ⟨⟨m, hm, hmin⟩, m', hm', hmax⟩

/-- The scale of usable options is a number, and never more than two. -/
theorem scale_bounds {o : LayoutOptions} (usable : o.fault? = none) {b : Box Float} (hb : b.IsFinite) :
    (o.frame.scale b).isFinite = true ∧ 0 ≤ value (o.frame.scale b) ∧ value (o.frame.scale b) ≤ 2 := by
  obtain ⟨width, height, padding⟩ := frame_of_usable usable
  obtain ⟨roomW, roomW', -⟩ := room_le (f := o.frame) padding width.1 width.2
  obtain ⟨roomH, roomH', -⟩ := room_le (f := o.frame) padding height.1 height.2
  obtain ⟨-, hscale⟩ := fitScale_isScale (b := b) (isRounding_sub hb.maxX hb.minX).number
    (isRounding_sub hb.maxY hb.minY).number ⟨roomW, roomW'⟩ ⟨roomH, roomH'⟩
  refine ⟨isFinite_of_abs_lt hscale.amount.1 ?_, hscale.amount.2, hscale.capped⟩
  have htwo : (2 : ℚ) ^ (1 : ℤ) < limit := by
    rw [limit_eq]
    exact zpow_lt_zpow_right₀ (by norm_num) (by norm_num)
  have hnonneg : 0 ≤ value (o.frame.scale b) := hscale.amount.2
  have hcapped : value (o.frame.scale b) ≤ 2 := hscale.capped
  rw [zpow_one] at htwo
  rw [abs_of_nonneg hnonneg]
  linarith

namespace Strategy

variable {d : GraphData} {o : LayoutOptions} {r : LayoutResult} {b : Box Float}

/-- The nodes of the data are in rows, and these have been fitted from a box into the canvas. -/
structure InRows (d : GraphData) (r : LayoutResult) (b : Box Float) : Prop where
  usable : r.options.fault? = none
  box : b.IsFinite
  scale : rowScale d r.options = r.options.frame.scale b
  upright : value b.minY ≤ value b.maxY
  top : ∃ i < rowCount d, b.minY = rowAt d r.options i
  bottom : ∃ i < rowCount d, b.maxY = rowAt d r.options i
  node : ∀ n ∈ r.nodes, ∃ i, d.ids[i]? = some n.id ∧ (rowAt d r.options ((levels d).getD i 0)).isFinite = true ∧
    n.y = (rowAt d r.options ((levels d).getD i 0) - b.center.y) * r.options.frame.scale b + half r.options.height

theorem mem_placeEach {place : Nat → Float × Float} {n : GraphNode} (h : n ∈ (placeEach d place).nodes) :
    ∃ i < d.nodes.length, d.ids[i]? = some n.id ∧ n.y = (place i).2 := by
  obtain ⟨i, hi, rfl⟩ := List.mem_mapIdx.mp h
  refine ⟨i, hi, ?_, rfl⟩
  rw [GraphData.ids, List.getElem?_map, List.getElem?_eq_getElem hi]
  rfl

theorem exists_inRows {e : LayoutEngine} {drawn : Random.Generator} {algorithm tag : String} {u : LayoutOptionsUpdate}
    (resolved : e.resolve algorithm = .ok (tag, hierarchical)) (done : e.compute? drawn d algorithm u = .ok r)
    (acyclic : d.Acyclic) (hsome : r.nodes ≠ []) : ∃ b, InRows d r b := by
  obtain ⟨-, strategy, placed, outcome, hresolved, hplaced, hfitted⟩ := compute?_fitted done
  obtain ⟨-, rfl⟩ := Prod.ext_iff.mp (Except.ok.inj (resolved.symm.trans hresolved))
  obtain ⟨x, hrows⟩ := hierarchical_eq d r.options
  obtain ⟨rfl, -⟩ := Prod.ext_iff.mp (Except.ok.inj ((hrows drawn).symm.trans hplaced))
  have hnonempty : (placeEach d fun i => (x i, rowAt d r.options ((levels d).getD i 0))).nodes ≠ [] := by
    intro hnone
    rw [hfitted.fitted, hnone] at hsome
    exact hsome rfl
  obtain ⟨b, hb⟩ := exists_boxOf? hnonempty
  obtain ⟨hbox, hencloses⟩ := boxOf?_encloses hb hfitted.checked
  obtain ⟨⟨n, hn, hmin⟩, m, hm, hmax⟩ := boxOf?_sides hb
  have hlevel {n : GraphNode} (hn : n ∈ (placeEach d fun i => (x i, rowAt d r.options ((levels d).getD i 0))).nodes) :
      ∃ i < rowCount d, n.y = rowAt d r.options i := by
    obtain ⟨i, hi, -, hy⟩ := mem_placeEach hn
    exact ⟨_, level_lt_rowCount acyclic hi, hy⟩
  refine ⟨b, hfitted.usable, hbox, ?_, (hencloses n hn).minY.trans (hencloses n hn).maxY, hmin ▸ hlevel hn,
    hmax ▸ hlevel hm, fun n hn => ?_⟩
  · rw [rowScale, hrows]
    simp only [hb, Option.elim_some]
  · rw [hfitted.fitted, normalize_eq _ hb] at hn
    obtain ⟨m, hm, rfl⟩ := List.mem_map.mp hn
    obtain ⟨i, -, hid, hy⟩ := mem_placeEach hm
    have hplaced := ((isPlaced_iff m).mp (hfitted.checked m hm)).2
    rw [hy] at hplaced
    refine ⟨i, hid, hplaced, ?_⟩
    rw [← show m.y = rowAt d r.options ((levels d).getD i 0) from hy]
    rfl

theorem ids_compute {e : LayoutEngine} {drawn : Random.Generator} {algorithm tag : String} {u : LayoutOptionsUpdate}
    (resolved : e.resolve algorithm = .ok (tag, hierarchical)) (done : e.compute? drawn d algorithm u = .ok r) :
    r.nodes.map GraphNode.id = d.ids := by
  obtain ⟨-, strategy, placed, outcome, hresolved, hplaced, hfitted⟩ := compute?_fitted done
  obtain ⟨-, rfl⟩ := Prod.ext_iff.mp (Except.ok.inj (resolved.symm.trans hresolved))
  obtain ⟨rfl, -⟩ := Prod.ext_iff.mp (Except.ok.inj hplaced)
  rw [hfitted.fitted, normalize_map GraphNode.id fun _ _ => rfl]
  exact map_placeEach (fun _ _ _ _ _ _ => rfl) d _

/-- The middle of the rows is on the canvas, or beyond it by no more than its height. -/
theorem InRows.center_bounds (h : InRows d r b) {k : ℤ} (hroomy : Roomy d r.options k) :
    b.center.y.isFinite = true ∧ 0 ≤ value b.center.y ∧ value b.center.y ≤ 2 ^ (k + 2) := by
  obtain ⟨i, hi, htop⟩ := h.top
  obtain ⟨j, hj, hbottom⟩ := h.bottom
  obtain ⟨-, hlow, hhigh, -⟩ := htop ▸ hroomy.rowAt_bounds hi
  obtain ⟨-, hlow', hhigh', -⟩ := hbottom ▸ hroomy.rowAt_bounds hj
  have hsize : |value b.minY + value b.maxY| ≤ 2 ^ (k + 3) := by
    rw [abs_of_nonneg (by linarith), show k + 3 = k + 2 + 1 by omega, two_zpow_add, zpow_one]
    linarith
  obtain ⟨hsum, -, -⟩ := (isRounding_add h.box.minY h.box.maxY).within
    (by have := hroomy.above; omega) (by have := hroomy.below; omega) hsize
  have hmiddle := isMiddle_half h.box.minY h.box.maxY hsum
  exact ⟨isFinite_half hsum, hlow.trans (hmiddle.above h.upright), (hmiddle.below h.upright).trans hhigh'⟩

/-- What keeps rows apart when they are fitted into their canvas: its height is far from nothing
and from the limit, and what the scale makes of the distance between two rows is not less than
the last of 45 bits of the height. -/
structure StayApart (d : GraphData) (o : LayoutOptions) : Prop where
  low : 2 ^ (-1020 : ℤ) ≤ value o.height
  high : value o.height < 2 ^ (1020 : ℤ)
  apart : (rowCount d + 1 : ℚ) ≤ 2 ^ 45 * value (rowScale d o)

theorem StayApart.roomy (h : StayApart d o) (hfinite : o.height.isFinite = true) (hscale : value (rowScale d o) ≤ 2) :
    ∃ k, Roomy d o k := by
  have hlarge : smallest ≤ value o.height := by
    rw [smallest_eq]
    exact (zpow_le_zpow_right₀ (by norm_num) (by norm_num)).trans h.low
  obtain ⟨k, -, hlow, hhigh⟩ := exists_two_zpow hlarge
  have habove : (-1020 : ℤ) < k + 1 :=
    (zpow_lt_zpow_iff_right₀ (one_lt_two : (1 : ℚ) < 2)).mp (h.low.trans_lt hhigh)
  have hbelow : k < 1020 := (zpow_lt_zpow_iff_right₀ (one_lt_two : (1 : ℚ) < 2)).mp (hlow.trans_lt h.high)
  have hfew : (rowCount d + 1 : ℚ) ≤ 2 ^ 46 := by linarith [h.apart]
  exact ⟨k, by omega, by omega, hfinite, hlow, hhigh, by exact_mod_cast hfew⟩

/-- In a hierarchical layout of nodes with distinct ids and without a cycle, all nodes to which
nothing leads are in one row, and no edge leads to a node in a higher row, as far as these are
somewhere. Every edge leads to a lower row as long as the rows stay apart on the canvas: they
need not if the margins leave no room between them. -/
theorem children_are_below {e : LayoutEngine} {drawn : Random.Generator} {algorithm tag : String}
    {u : LayoutOptionsUpdate}
    (resolved : e.resolve algorithm = .ok (tag, hierarchical)) (done : e.compute? drawn d algorithm u = .ok r)
    (distinct : d.ids.Nodup) (acyclic : d.Acyclic) :
    r.nodes.map GraphNode.id = d.ids ∧
    (∀ n ∈ r.nodes, ∀ m ∈ r.nodes, (∀ id, ¬d.LeadsTo id n.id) → (∀ id, ¬d.LeadsTo id m.id) → n.y = m.y) ∧
    ∀ n ∈ r.nodes, ∀ m ∈ r.nodes, d.LeadsTo n.id m.id →
      (n.y.isFinite = true → m.y.isFinite = true → n.y ≤ m.y) ∧ (StayApart d r.options → n.y < m.y) := by
  refine ⟨ids_compute resolved done, fun n hn m hm hfirst hfirst' => ?_, fun n hn m hm hleads => ?_⟩
  all_goals
    obtain ⟨b, h⟩ := exists_inRows resolved done acyclic (List.ne_nil_of_mem hn)
    obtain ⟨i, hi, hrow, hy⟩ := h.node n hn
    obtain ⟨j, hj, hrow', hy'⟩ := h.node m hm
  · rw [hy, hy', level_eq_zero acyclic hi hfirst, level_eq_zero acyclic hj hfirst']
  · have hlevels := level_lt distinct acyclic hi hj hleads
    obtain ⟨-, hheight, -⟩ := frame_of_usable h.usable
    obtain ⟨hs, hscale⟩ := scale_bounds h.usable h.box
    rw [hy, hy']
    refine ⟨fun hplaced hplaced' => ?_, fun hapart => ?_⟩
    · rw [le_iff (isNaN_of_isFinite hplaced) (isNaN_of_isFinite hplaced')]
      exact fitted_le hrow hrow' hs hscale.1 (isFinite_half hheight.1) hplaced hplaced'
        (rowAt_le hheight hrow hrow' hlevels.le)
    · obtain ⟨k, hroomy⟩ := hapart.roomy hheight.1 (h.scale ▸ hscale.2)
      have hlast : (levels d).getD j 0 < rowCount d := level_lt_rowCount acyclic (by
        simpa [GraphData.ids] using (List.getElem?_eq_some_iff.mp hj).1)
      exact hroomy.fitted_lt (h.center_bounds hroomy) hs hscale (h.scale ▸ hapart.apart) hlevels hlast

/-! Two ways from the first of four nodes to the last. -/

def diamond : GraphData :=
  { nodes := ["a", "b", "c", "d"].map fun id => { GraphNode.ofSymbol default with id }
    edges := [("a", "b"), ("a", "c"), ("b", "d"), ("c", "d")].map fun (source, target) =>
      { (default : GraphEdge) with source, target } }

theorem diamond_acyclic : diamond.Acyclic := GraphData.acyclic_of_rank diamond.ids.idxOf (by decide)

theorem diamond_stays_apart : StayApart diamond {} := by
  have hheight : value 800.0 = 800 := by
    have hstored : parts 800.0 = .finite .positive 7036874417766400 (-43) (by norm_num) := rfl
    rw [value, hstored]
    norm_num [toRat, unit]
  have hscale : rowScale diamond {} = 1.75 := by
    rw [← Float.toBits_inj]
    decide +kernel
  have hvalue : value 1.75 = 7 / 4 := by
    have hstored : parts 1.75 = .finite .positive 7881299347898368 (-52) (by norm_num) := rfl
    rw [value, hstored]
    norm_num [toRat, unit]
  have hlow : (2 : ℚ) ^ (-1020 : ℤ) ≤ 2 ^ (0 : ℤ) := zpow_le_zpow_right₀ (by norm_num) (by norm_num)
  have hhigh : (2 : ℚ) ^ (10 : ℤ) < 2 ^ (1020 : ℤ) := zpow_lt_zpow_right₀ (by norm_num) (by norm_num)
  refine ⟨?_, ?_, ?_⟩
  · change _ ≤ value 800.0
    exact hheight ▸ hlow.trans (by norm_num)
  · change value 800.0 < _
    exact hheight ▸ lt_trans (by norm_num) hhigh
  · rw [hscale, hvalue, show rowCount diamond = 3 by decide]
    norm_num

/-- The usual options leave the rows room enough. -/
theorem diamond_is_drawn_downwards :
    ∃ r, (ofDefaults {}).compute? (.ofSeed 0) diamond LayoutAlgorithm.hierarchical.tag {} = .ok r ∧ r.nodes.length = 4 ∧
      ∀ n ∈ r.nodes, ∀ m ∈ r.nodes, diamond.LeadsTo n.id m.id → n.y < m.y := by
  have hfound : ((ofDefaults {}).compute? (.ofSeed 0) diamond LayoutAlgorithm.hierarchical.tag {}).toOption.any
      (·.nodes.length == 4) = true := by
    decide +kernel
  obtain ⟨r, hr, hlength⟩ := exists_ok_of_any hfound
  have hoptions : r.options = {} := (compute?_fitted hr).1
  have hresolved : (ofDefaults {}).resolve LayoutAlgorithm.hierarchical.tag =
      .ok (LayoutAlgorithm.hierarchical.tag, hierarchical) := rfl
  obtain ⟨-, -, hbelow⟩ := children_are_below hresolved hr (by decide) diamond_acyclic
  refine ⟨r, hr, by simpa using hlength, fun n hn m hm hleads => ?_⟩
  exact (hbelow n hn m hm hleads).2 (hoptions ▸ diamond_stays_apart)

/-- Margins of half the height leave no room, and all nodes come to lie in one row. -/
theorem rows_may_coincide :
    ¬∀ (drawn : Random.Generator) (d : GraphData) (u : LayoutOptionsUpdate) (r : LayoutResult), d.ids.Nodup → d.Acyclic →
      (∀ e ∈ d.edges, e.source ∈ d.ids ∧ e.target ∈ d.ids) →
      (ofDefaults {}).compute? drawn d LayoutAlgorithm.hierarchical.tag u = .ok r →
      (∀ n ∈ r.nodes, ∀ m ∈ r.nodes, d.LeadsTo n.id m.id → n.y < m.y) ∧
        ∀ n ∈ r.nodes, ∀ m ∈ r.nodes, (∀ id, ¬d.LeadsTo id n.id) → (∀ id, ¬d.LeadsTo id m.id) → n.y = m.y := by
  intro h
  have hfound : ((ofDefaults {}).compute? (.ofSeed 0) diamond LayoutAlgorithm.hierarchical.tag
      { padding := some 400.0 }).toOption.any (fun r => r.nodes.any fun n => r.nodes.any fun m =>
        n.id == "a" && m.id == "b" && !decide (n.y < m.y)) = true := by
    decide +kernel
  obtain ⟨r, hr, hrow⟩ := exists_ok_of_any hfound
  simp only [List.any_eq_true, Bool.and_eq_true, beq_iff_eq, Bool.not_eq_true', decide_eq_false_iff_not] at hrow
  obtain ⟨n, hn, m, hm, ⟨hid, hid'⟩, hsame⟩ := hrow
  have hleads : diamond.LeadsTo n.id m.id := by
    rw [hid, hid']
    exact ⟨_, List.mem_cons_self, rfl, rfl⟩
  exact hsame ((h _ diamond _ r (by decide) diamond_acyclic (by decide) hr).1 n hn m hm hleads)

end Strategy

end CodeAtlas
