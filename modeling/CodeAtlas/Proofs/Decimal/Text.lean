import CodeAtlas.Decimal.Format
import CodeAtlas.Proofs.Decimal.Shortest
import Mathlib

/-! The text of a float tells its digits.

All texts of finite floats are digits, after a point perhaps more digits, and perhaps a
mark and a power of ten (`Numeral`). A reader of such texts (`reading`) gives back the
number that was written, whichever of the layouts it was written in
(`numeral_text?`), so floats with one text have one value. -/
namespace CodeAtlas.Decimal

/-! ### Reading -/

/-- The power of ten after a mark. -/
def scale : List Char → ℤ
  | '-' :: ds => -(Nat.ofDigitChars 10 ds 0 : ℤ)
  | '+' :: ds => Nat.ofDigitChars 10 ds 0
  | _ => 0

/-- The number a text without a sign stands for. -/
def reading (cs : List Char) : ℚ :=
  let body := cs.takeWhile (· != 'e')
  let after := (body.dropWhile (· != '.')).drop 1
  Nat.ofDigitChars 10 (body.takeWhile (· != '.') ++ after) 0 *
    10 ^ (scale ((cs.dropWhile (· != 'e')).drop 1) - after.length)

/-- Digits after a point, if there are any. -/
def pointed (after : List Char) : List Char := if after.isEmpty then [] else '.' :: after

def AllDigits (cs : List Char) : Prop := ∀ c ∈ cs, c.isDigit = true

/-- A mark and a power of ten, or nothing. -/
inductive Marked : List Char → Prop where
  | none : Marked []
  | some {sign : Char} {ds : List Char} (hs : sign = '-' ∨ sign = '+') (hd : AllDigits ds) : Marked ('e' :: sign :: ds)

theorem ne_of_isDigit {c d : Char} (h : c.isDigit = true) (hd : d.isDigit = false) : (c != d) = true := by
  rw [bne_iff_ne]
  rintro rfl
  rw [h] at hd
  cases hd

theorem span_pointed {whole : List Char} (after : List Char) (hw : AllDigits whole) :
    (whole ++ pointed after).takeWhile (· != '.') = whole ∧
      ((whole ++ pointed after).dropWhile (· != '.')).drop 1 = after := by
  have hpos : ∀ c ∈ whole, (c != '.') = true := fun c hc => ne_of_isDigit (hw c hc) rfl
  rw [List.takeWhile_append_of_pos hpos, List.dropWhile_append_of_pos hpos]
  cases after <;> simp [pointed]

theorem span_marked {body mark : List Char} (hb : ∀ c ∈ body, (c != 'e') = true) (hm : Marked mark) :
    (body ++ mark).takeWhile (· != 'e') = body ∧ (body ++ mark).dropWhile (· != 'e') = mark := by
  rw [List.takeWhile_append_of_pos hb, List.dropWhile_append_of_pos hb]
  cases hm <;> simp

theorem mem_pointed {after : List Char} {c : Char} (h : c ∈ pointed after) : c = '.' ∨ c ∈ after := by
  unfold pointed at h
  split at h
  · cases h
  · exact List.mem_cons.mp h

theorem reading_eq {whole after mark : List Char} (hw : AllDigits whole) (ha : AllDigits after) (hm : Marked mark) :
    reading (whole ++ pointed after ++ mark) =
      Nat.ofDigitChars 10 (whole ++ after) 0 * 10 ^ (scale (mark.drop 1) - after.length) := by
  have hb : ∀ c ∈ whole ++ pointed after, (c != 'e') = true := by
    intro c hc
    rcases List.mem_append.mp hc with hc | hc
    · exact ne_of_isDigit (hw c hc) rfl
    · rcases mem_pointed hc with rfl | hc
      · rfl
      · exact ne_of_isDigit (ha c hc) rfl
  obtain ⟨hbody, hmark⟩ := span_marked hb hm
  obtain ⟨hwhole, hafter⟩ := span_pointed after hw
  rw [reading, hbody, hmark, hwhole, hafter]

/-! ### Writing -/

/-- A text of digits, perhaps a point and more digits, and perhaps a power of ten, that stands for a number. -/
structure Numeral (text : List Char) (x : ℚ) : Prop where
  reading : reading text = x
  form : ∃ whole after mark, text = whole ++ pointed after ++ mark ∧ AllDigits whole ∧ AllDigits after ∧ Marked mark ∧
    whole ≠ [] ∧ (after ≠ [] ∨ mark ≠ [])

theorem numeral_of_parts {whole after mark : List Char} {x : ℚ} (hw : AllDigits whole) (ha : AllDigits after)
    (hm : Marked mark) (hne : whole ≠ []) (hpoint : after ≠ [] ∨ mark ≠ [])
    (hx : Nat.ofDigitChars 10 (whole ++ after) 0 * 10 ^ (scale (mark.drop 1) - after.length) = x) :
    Numeral (whole ++ pointed after ++ mark) x :=
  ⟨(reading_eq hw ha hm).trans hx, whole, after, mark, rfl, hw, ha, hm, hne, hpoint⟩

theorem toList_toString (n : ℕ) : (toString n).toList = Nat.toDigits 10 n := Nat.toList_repr

theorem allDigits_toDigits (n : ℕ) : AllDigits (Nat.toDigits 10 n) := fun _ h =>
  Nat.isDigit_of_mem_toDigits (by decide) (by decide) h

theorem allDigits_zeros (n : ℕ) : AllDigits (List.replicate n '0') := by
  intro c hc
  rw [(List.mem_replicate.mp hc).2]
  rfl

theorem AllDigits.append {cs ds : List Char} (hc : AllDigits cs) (hd : AllDigits ds) : AllDigits (cs ++ ds) := fun c h =>
  (List.mem_append.mp h).elim (hc c) (hd c)

theorem ofDigitChars_toDigits (n : ℕ) : Nat.ofDigitChars 10 (Nat.toDigits 10 n) 0 = n :=
  Nat.ofDigitChars_toDigits (by decide) (by decide)

theorem toList_zeros (n : ℕ) : (zeros n).toList = List.replicate n '0' := by simp [zeros]

theorem length_toString (n : ℕ) : (toString n).length = (Nat.toDigits 10 n).length := by
  rw [← toList_toString, String.length_toList]

theorem toDigits_ne_nil (n : ℕ) : Nat.toDigits 10 n ≠ [] := List.ne_nil_of_length_pos Nat.length_toDigits_pos

theorem isEmpty_of_toList {s : String} {cs : List Char} (h : s.toList = cs) (hne : cs ≠ []) : s.isEmpty = false := by
  rw [String.isEmpty_eq_false_iff, ne_eq, ← String.toList_eq_nil_iff, h]
  exact hne

theorem toList_zero : ("0" : String).toList = ['0'] := rfl

/-- It is enough to know the digits on both sides of the point. -/
theorem numeral_of_point {whole after : List Char} {x : ℚ} (hw : AllDigits whole) (ha : AllDigits after) (hwne : whole ≠ [])
    (hane : after ≠ []) (hx : (Nat.ofDigitChars 10 (whole ++ after) 0 : ℚ) * 10 ^ (-(after.length : ℤ)) = x) :
    Numeral (whole ++ '.' :: after) x := by
  have h : Numeral (whole ++ pointed after ++ []) x :=
    numeral_of_parts hw ha .none hwne (.inl hane) (by simpa [scale] using hx)
  have hp : pointed after = '.' :: after := by cases after <;> [exact absurd rfl hane; rfl]
  rwa [hp, List.append_nil] at h

/-- All digits stand before the point, and zeros fill up to it. -/
theorem numeral_whole (m n : ℕ) :
    Numeral (Nat.toDigits 10 m ++ List.replicate n '0' ++ '.' :: ['0']) (m * 10 ^ (n : ℤ)) := by
  refine numeral_of_point ((allDigits_toDigits m).append (allDigits_zeros n)) (allDigits_zeros 1)
    (by simp) (by decide) ?_
  rw [← List.replicate_one, Nat.ofDigitChars_append, Nat.ofDigitChars_append, ofDigitChars_toDigits,
    Nat.ofDigitChars_replicate_zero, Nat.ofDigitChars_replicate_zero, List.length_replicate, zpow_natCast]
  push_cast
  field_simp

/-- All digits stand after the point, and zeros fill down from it. -/
theorem numeral_fraction {m n : ℕ} (h : (Nat.toDigits 10 m).length ≤ n) :
    Numeral (['0'] ++ '.' :: (List.replicate (n - (Nat.toDigits 10 m).length) '0' ++ Nat.toDigits 10 m))
      (m * 10 ^ (-(n : ℤ))) := by
  refine numeral_of_point (allDigits_zeros 1) ((allDigits_zeros _).append (allDigits_toDigits m)) (by decide)
    (by simp) ?_
  have hsum : ((List.replicate (n - (Nat.toDigits 10 m).length) '0' ++ Nat.toDigits 10 m).length : ℤ) = n := by
    rw [List.length_append, List.length_replicate]
    omega
  rw [hsum, ← List.replicate_one, Nat.ofDigitChars_append, Nat.ofDigitChars_append, Nat.ofDigitChars_replicate_zero,
    Nat.ofDigitChars_replicate_zero, Nat.mul_zero, ofDigitChars_toDigits]

/-- The point stands between two digits. -/
theorem numeral_mixed {m n : ℕ} (hpos : 0 < n) (h : n < (Nat.toDigits 10 m).length) :
    Numeral ((Nat.toDigits 10 m).take ((Nat.toDigits 10 m).length - n) ++
      '.' :: (Nat.toDigits 10 m).drop ((Nat.toDigits 10 m).length - n)) (m * 10 ^ (-(n : ℤ))) := by
  have hd := allDigits_toDigits m
  refine numeral_of_point (fun c hc => hd c (List.mem_of_mem_take hc)) (fun c hc => hd c (List.mem_of_mem_drop hc)) ?_ ?_ ?_
  · simp only [ne_eq, List.take_eq_nil_iff, not_or]
    exact ⟨by omega, toDigits_ne_nil m⟩
  · simp only [ne_eq, List.drop_eq_nil_iff, not_le]
    omega
  · have hsum : (((Nat.toDigits 10 m).drop ((Nat.toDigits 10 m).length - n)).length : ℤ) = n := by
      rw [List.length_drop]
      omega
    rw [hsum, List.take_append_drop, ofDigitChars_toDigits]

theorem toList_after {s : String} {cs : List Char} (h : s.toList = cs) (hne : cs ≠ []) :
    (if s.isEmpty then "0" else s).toList = cs := by
  rw [isEmpty_of_toList h hne, if_neg (by decide), h]

/-- The digits before the point and those after it. -/
theorem numeral_positional (d : Digits) :
    Numeral (d.positional.1.toList ++ '.' :: (if d.positional.2.isEmpty then "0" else d.positional.2).toList)
      (d.digits * 10 ^ d.exponent) := by
  have hlength := length_toString d.digits
  have htext := toList_toString d.digits
  unfold Digits.positional
  generalize toString d.digits = text at hlength htext ⊢
  dsimp only
  split
  · rename_i hpos
    obtain ⟨n, hexponent⟩ := Int.eq_ofNat_of_zero_le hpos
    have hafter : ("" : String).isEmpty = true := rfl
    dsimp only
    rw [hexponent, Int.toNat_natCast, String.toList_append, htext, toList_zeros, if_pos hafter, toList_zero]
    exact numeral_whole d.digits n
  rename_i hneg
  have hexponent : d.exponent = -((-d.exponent).toNat : ℤ) := by omega
  have hdigits : 0 < (-d.exponent).toNat := by omega
  generalize (-d.exponent).toNat = n at hexponent hdigits
  rw [hexponent, hlength]
  split
  · rename_i hlow
    have hafter : (zeros (n - (Nat.toDigits 10 d.digits).length) ++ text).toList =
        List.replicate (n - (Nat.toDigits 10 d.digits).length) '0' ++ Nat.toDigits 10 d.digits := by
      rw [String.toList_append, toList_zeros, htext]
    dsimp only
    rw [toList_after hafter (by simp), toList_zero]
    exact numeral_fraction hlow
  · rename_i hhigh
    have hne : (Nat.toDigits 10 d.digits).drop ((Nat.toDigits 10 d.digits).length - n) ≠ [] := by
      simp only [ne_eq, List.drop_eq_nil_iff, not_le]
      omega
    dsimp only
    rw [htext, String.toList_ofList, toList_after String.toList_ofList hne]
    exact numeral_mixed hdigits (by omega)

theorem toList_pointed (s : String) : (if s.isEmpty then "" else "." ++ s).toList = pointed s.toList := by
  by_cases h : s.toList = []
  · obtain rfl := String.toList_eq_nil_iff.mp h
    rfl
  · rw [isEmpty_of_toList rfl h, if_neg (by decide), String.toList_append, pointed, if_neg (by simpa using h)]
    rfl

/-- The first digit, the others after a point, and the exponent of the first after a mark. -/
theorem numeral_scientific (d : Digits) :
    let text := Nat.toDigits 10 d.digits
    let lead := d.exponent + text.length - 1
    Numeral (text.take 1 ++ pointed (text.drop 1) ++ 'e' :: (if lead < 0 then '-' else '+') :: Nat.toDigits 10 lead.natAbs)
      (d.digits * 10 ^ d.exponent) := by
  intro text lead
  have hd : AllDigits text := allDigits_toDigits d.digits
  have hne : text ≠ [] := toDigits_ne_nil d.digits
  have hpos : 0 < text.length := List.length_pos_iff.mpr hne
  have hscale : scale ((if lead < 0 then '-' else '+') :: Nat.toDigits 10 lead.natAbs) = lead := by
    split
    · rw [scale, ofDigitChars_toDigits]
      omega
    · rw [scale, ofDigitChars_toDigits]
      omega
  refine numeral_of_parts (fun c hc => hd c (List.mem_of_mem_take hc)) (fun c hc => hd c (List.mem_of_mem_drop hc))
    (.some ?_ (allDigits_toDigits _)) (by simp [hne]) (.inr (List.cons_ne_nil _ _)) ?_
  · split <;> simp
  · have hlast : lead - (text.drop 1).length = d.exponent := by
      rw [List.length_drop]
      omega
    have hmark : ('e' :: (if lead < 0 then '-' else '+') :: Nat.toDigits 10 lead.natAbs).drop 1 =
        (if lead < 0 then '-' else '+') :: Nat.toDigits 10 lead.natAbs := rfl
    rw [hmark, hscale, hlast, List.take_append_drop, ofDigitChars_toDigits]

/-- The text of a finite number: its sign, and then a numeral. -/
theorem numeral_text? (negative : Bool) (m : ℕ) (e : ℤ) (n : Bool) :
    ∃ body, (Value.finite negative m e n).text? jsonLayout =
        some (String.ofList ((if negative then ['-'] else []) ++ body)) ∧
      Numeral body ((shortest m e n).digits * 10 ^ (shortest m e n).exponent) := by
  unfold Value.text?
  dsimp only
  generalize shortest m e n = d
  have hsign : (if negative then "-" else "" : String).toList = if negative then ['-'] else [] := by
    cases negative <;> rfl
  have hlength := length_toString d.digits
  split
  · refine ⟨_, ?_, numeral_positional d⟩
    rw [Option.some_inj, ← String.toList_inj]
    simp only [String.toList_append, String.toList_ofList, hsign, List.append_assoc]
    rfl
  · refine ⟨_, ?_, numeral_scientific d⟩
    rw [Option.some_inj, ← String.toList_inj]
    have hmark (lead : ℤ) : (if lead < 0 then "e-" else "e" ++ jsonLayout.plus).toList =
        ['e', if lead < 0 then '-' else '+'] := by split <;> rfl
    simp only [String.toList_append, String.toList_ofList, hsign, hmark, toList_pointed, toList_toString, hlength,
      List.append_assoc, List.cons_append, List.nil_append]

/-! ### Signs -/

theorem Numeral.mem {body : List Char} {x : ℚ} (h : Numeral body x) {c : Char} (hc : c ∈ body) :
    c.isDigit = true ∨ c ∈ ['.', 'e', '-', '+'] := by
  obtain ⟨whole, after, mark, rfl, hw, ha, hm, -, -⟩ := h.form
  rcases List.mem_append.mp hc with hc | hc
  · rcases List.mem_append.mp hc with hc | hc
    · exact .inl (hw c hc)
    · rcases mem_pointed hc with rfl | hc
      · exact .inr (by simp)
      · exact .inl (ha c hc)
  · cases hm with
    | none => cases hc
    | some hs hd =>
      rcases List.mem_cons.mp hc with rfl | hc
      · exact .inr (by simp)
      rcases List.mem_cons.mp hc with rfl | hc
      · obtain rfl | rfl := hs <;> exact .inr (by simp)
      · exact .inl (hd c hc)

/-- No numeral is a whole number: there is a point or a mark in it. -/
theorem Numeral.point_or_mark {body : List Char} {x : ℚ} (h : Numeral body x) : '.' ∈ body ∨ 'e' ∈ body := by
  obtain ⟨whole, after, mark, rfl, -, -, hm, -, hne | hne⟩ := h.form
  · have hp : '.' ∈ pointed after := by
      rw [pointed, if_neg (by simpa using hne)]
      exact List.mem_cons_self
    simp [hp]
  · cases hm with
    | none => exact absurd rfl hne
    | some => simp

theorem Numeral.head_isDigit {body : List Char} {x : ℚ} (h : Numeral body x) : ∃ c rest, body = c :: rest ∧ c.isDigit = true := by
  obtain ⟨whole, after, mark, rfl, hw, -, -, hne, -⟩ := h.form
  cases whole with
  | nil => exact absurd rfl hne
  | cons c whole => exact ⟨c, _, rfl, hw c (by simp)⟩

/-- A sign and a numeral are told from the text of both. -/
theorem signed_cancel {negative negative' : Bool} {body body' : List Char} {x x' : ℚ} (hb : Numeral body x)
    (hb' : Numeral body' x')
    (h : (if negative then ['-'] else []) ++ body = (if negative' then ['-'] else []) ++ body') :
    negative = negative' ∧ body = body' := by
  obtain ⟨c, rest, rfl, hc⟩ := hb.head_isDigit
  obtain ⟨c', rest', rfl, hc'⟩ := hb'.head_isDigit
  cases negative <;> cases negative'
  · exact ⟨rfl, h⟩
  · obtain rfl := (List.cons.inj h).1
    exact absurd hc (by decide)
  · obtain rfl := (List.cons.inj h).1
    exact absurd hc' (by decide)
  · exact ⟨rfl, (List.cons.inj h).2⟩

/-! ### Bits -/

theorem bits_split {p q bits : ℕ} (hbits : bits < 2 ^ (p + q + 1)) :
    bits = bits / 2 ^ (p + q) % 2 * 2 ^ (p + q) + bits / 2 ^ p % 2 ^ q * 2 ^ p + bits % 2 ^ p := by
  have hsign : bits / 2 ^ (p + q) < 2 := by
    rw [Nat.div_lt_iff_lt_mul (Nat.two_pow_pos _)]
    rwa [pow_succ'] at hbits
  calc bits = bits / 2 ^ p * 2 ^ p + bits % 2 ^ p := (Nat.div_add_mod' bits (2 ^ p)).symm
    _ = (bits / 2 ^ p / 2 ^ q * 2 ^ q + bits / 2 ^ p % 2 ^ q) * 2 ^ p + bits % 2 ^ p := by
      rw [Nat.div_add_mod' (bits / 2 ^ p) (2 ^ q)]
    _ = _ := by rw [Nat.div_div_eq_div_mul, ← pow_add, Nat.mod_eq_of_lt hsign]; ring

/-- A finite value of some bits has its stored form, and the bits are put together from it. -/
theorem ofBits_finite {p q bits : ℕ} (hq : 2 ≤ q) (hbits : bits < 2 ^ (p + q + 1)) {negative : Bool} {m : ℕ} {e : ℤ} {n : Bool}
    (h : Value.ofBits p q bits = .finite negative m e n) :
    Stored p (2 - (2 ^ (q - 1) : ℕ) - p) m e n ∧ e ≤ (2 ^ q : ℕ) - (2 ^ (q - 1) : ℕ) - p - 1 ∧
      bits = (if negative then 1 else 0) * 2 ^ (p + q) + (e + (2 ^ (q - 1) : ℕ) + p - 2).toNat * 2 ^ p + m := by
  have hsplit := bits_split hbits
  have hfraction : bits % 2 ^ p < 2 ^ p := Nat.mod_lt _ (Nat.two_pow_pos p)
  have hbiased : bits / 2 ^ p % 2 ^ q < 2 ^ q := Nat.mod_lt _ (Nat.two_pow_pos q)
  have hsign : bits / 2 ^ (p + q) % 2 < 2 := Nat.mod_lt _ two_pos
  unfold Value.ofBits at h
  simp only [Nat.pow_eq] at h
  generalize bits % 2 ^ p = fraction at *
  generalize bits / 2 ^ p % 2 ^ q = biased at *
  generalize bits / 2 ^ (p + q) % 2 = sign at *
  have hnegative : sign = if sign == 1 then 1 else 0 := by
    obtain rfl | rfl : sign = 0 ∨ sign = 1 := by omega
    all_goals rfl
  have htwice : 2 ^ (p + 1) = 2 * 2 ^ p := pow_succ' 2 p
  have hfour : 4 ≤ 2 ^ q := Nat.pow_le_pow_right two_pos hq
  split at h
  · split at h <;> cases h
  · rename_i htop
    have htop : biased ≠ 2 ^ q - 1 := by simpa using htop
    split at h
    · rename_i hzero
      obtain rfl : biased = 0 := by simpa using hzero
      injection h with h₁ h₂ h₃ h₄
      subst h₁ h₂ h₃ h₄
      refine ⟨⟨by omega, by omega, .inr (by omega), by simp⟩, by omega, ?_⟩
      have hexponent : (1 - ((2 ^ (q - 1) : ℕ) - 1 + (p : ℤ)) + (2 ^ (q - 1) : ℕ) + p - 2).toNat = 0 := by omega
      rw [hexponent, ← hnegative, hsplit]
    · rename_i hpos
      have hpos : biased ≠ 0 := by simpa using hpos
      obtain ⟨k, rfl⟩ := Nat.exists_eq_succ_of_ne_zero hpos
      injection h with h₁ h₂ h₃ h₄
      subst h₁ h₂ h₃ h₄
      refine ⟨⟨by omega, by omega, .inl (by omega), ?_⟩, by omega, ?_⟩
      · simp
        omega
      have hexponent : (((k + 1 : ℕ) : ℤ) - ((2 ^ (q - 1) : ℕ) - 1 + (p : ℤ)) + (2 ^ (q - 1) : ℕ) + p - 2).toNat = k := by
        omega
      rw [hexponent, ← hnegative, hsplit, Nat.succ_mul]
      ring

/-- Bits of finite values of one width with one text are the same. -/
theorem bits_of_text? {p q bits bits' : ℕ} (hq : 2 ≤ q) (hp : p ≤ 52) (low : -1074 ≤ 2 - ((2 ^ (q - 1) : ℕ) : ℤ) - p)
    (high : ((2 ^ q : ℕ) : ℤ) - (2 ^ (q - 1) : ℕ) - p - 1 ≤ 971) (hbits : bits < 2 ^ (p + q + 1))
    (hbits' : bits' < 2 ^ (p + q + 1)) {s s' : Bool} {m m' : ℕ} {e e' : ℤ} {n n' : Bool}
    (hv : Value.ofBits p q bits = .finite s m e n) (hv' : Value.ofBits p q bits' = .finite s' m' e' n')
    (h : (Value.ofBits p q bits).text? jsonLayout = (Value.ofBits p q bits').text? jsonLayout) : bits = bits' := by
  obtain ⟨body, htext, hbody⟩ := numeral_text? s m e n
  obtain ⟨body', htext', hbody'⟩ := numeral_text? s' m' e' n'
  rw [hv, hv', htext, htext', Option.some_inj, String.ofList_inj] at h
  obtain ⟨rfl, rfl⟩ := signed_cancel hbody hbody' h
  obtain ⟨hstored, hhigh, hsum⟩ := ofBits_finite hq hbits hv
  obtain ⟨hstored', hhigh', hsum'⟩ := ofBits_finite hq hbits' hv'
  obtain ⟨rfl, rfl⟩ := eq_of_shortest hp low hstored hstored' (hhigh.trans high) (hhigh'.trans high)
    (hbody.reading.symm.trans hbody'.reading)
  rw [hsum, hsum']

/-! ### Floats -/

open Float.Model (Format)
open Float.Model.UnpackedFloat in
/-- A finite number has a finite value. -/
theorem exists_finite_ofBits {f : Format} {b : BitVec f.numBits} (h : (unpack f b).isFinite = true) :
    ∃ s m e n, Value.ofBits f.mantissaBitsWithoutImplicit f.exponentBits b.toNat = .finite s m e n := by
  have hexponent : (unpackExponent b).toNat = b.toNat / 2 ^ f.mantissaBitsWithoutImplicit % 2 ^ f.exponentBits := by
    rw [unpackExponent_def, BitVec.extractLsb'_toNat, Nat.shiftRight_eq_div_pow]
  have htop : b.toNat / 2 ^ f.mantissaBitsWithoutImplicit % 2 ^ f.exponentBits ≠ 2 ^ f.exponentBits - 1 := by
    rw [← hexponent]
    intro htop
    have hones : unpackExponent b = -1#f.exponentBits := by
      apply BitVec.eq_of_toNat_eq
      rw [htop, BitVec.neg_one_eq_allOnes, BitVec.toNat_allOnes]
    rw [unpack] at h
    simp only [hones, if_true] at h
    split at h <;> cases h
  unfold Value.ofBits
  simp only [Nat.pow_eq]
  rw [if_neg (by simpa using htop)]
  split <;> exact ⟨_, _, _, _, rfl⟩

theorem exists_finite_ofFloat {x : Float} (h : x.isFinite = true) : ∃ s m e n, Value.ofFloat x = .finite s m e n :=
  exists_finite_ofBits (f := .binary64) h

theorem exists_finite_ofFloat32 {x : Float32} (h : x.isFinite = true) : ∃ s m e n, Value.ofFloat32 x = .finite s m e n :=
  exists_finite_ofBits (f := .binary32) h

/-- Finite numbers with one text are the same. -/
theorem float_of_text? {x y : Float} (hx : x.isFinite = true) (hy : y.isFinite = true)
    (h : (Value.ofFloat x).text? jsonLayout = (Value.ofFloat y).text? jsonLayout) : x = y := by
  obtain ⟨s, m, e, n, hv⟩ := exists_finite_ofFloat hx
  obtain ⟨s', m', e', n', hv'⟩ := exists_finite_ofFloat hy
  rw [← Float.toBits_inj, ← UInt64.toNat_inj]
  exact bits_of_text? (by norm_num) (by norm_num) (by norm_num) (by norm_num) x.toBits.toNat_lt y.toBits.toNat_lt hv hv' h

theorem float32_of_text? {x y : Float32} (hx : x.isFinite = true) (hy : y.isFinite = true)
    (h : (Value.ofFloat32 x).text? jsonLayout = (Value.ofFloat32 y).text? jsonLayout) : x = y := by
  obtain ⟨s, m, e, n, hv⟩ := exists_finite_ofFloat32 hx
  obtain ⟨s', m', e', n', hv'⟩ := exists_finite_ofFloat32 hy
  rw [← Float32.toBits_inj, ← UInt32.toNat_inj]
  exact bits_of_text? (by norm_num) (by norm_num) (by norm_num) (by norm_num) x.toBits.toNat_lt y.toBits.toNat_lt hv hv' h

end CodeAtlas.Decimal
