import CodeAtlas.Json.Parser
import CodeAtlas.Json.Printer
import CodeAtlas.Json.Wire
import CodeAtlas.Proofs.Decimal.Text

/-! Compact text determines what is written.

What is written can be told from the beginning of a text, as long as no numeral follows
it: strings end at the first quote that is not escaped, numbers where the numerals end,
arrays and objects at their brackets (`chars_cancel`). Numbers are told from their texts
as well, unless they are of different precision; so two values whose fractions are
finite and of double precision are the same when they have one text
(`compact_injective`). -/
namespace CodeAtlas.Json

/-- A value whose fractions are finite, and none of them of single precision. -/
inductive Plain : Json → Prop where
  | null : Plain .null
  | bool (b : Bool) : Plain (.bool b)
  | int (n : Int) : Plain (.int n)
  | float {x : Float} (finite : x.isFinite = true) : Plain (.float x)
  | str (s : String) : Plain (.str s)
  | arr {items : List Json} (h : ∀ j ∈ items, Plain j) : Plain (.arr items)
  | obj {fields : List (String × Json)} (h : ∀ f ∈ fields, Plain f.2) : Plain (.obj fields)

/-- A character of a number. -/
def isNumeral (c : Char) : Bool := c == '-' || c.isDigit || c == '.' || c == 'e' || c == '+'

/-- What may follow a value: anything but more of a number. -/
def Follows (r : List Char) : Prop := ∀ c ∈ r.head?, isNumeral c = false

theorem follows_cons {c : Char} {r : List Char} (h : isNumeral c = false) : Follows (c :: r) := by
  simpa [Follows] using h

/-! ### Strings -/

/-- The escape of a control character is read back. -/
theorem unicodeEscape?_control (n : Nat) (h : n < 32) (r : List Char) :
    unicodeEscape? ('0' :: '0' :: hexDigit (n / 16) :: hexDigit (n % 16) :: r) = some (Char.ofNat n, r) := by
  interval_cases n <;> rfl

theorem stringRest?_escapeChar (c : Char) (fuel : Nat) (acc r : List Char) :
    stringRest? (fuel + 1) acc (escapeChar c ++ r) = stringRest? fuel (c :: acc) r := by
  unfold escapeChar
  split_ifs with h₁ h₂ h₃ h₄ h₅ h₆ h₇ h₈
  · rw [beq_iff_eq.mp h₁]
    rfl
  · rw [beq_iff_eq.mp h₂]
    rfl
  · have hquote : c ≠ '"' := by simpa using h₁
    have hslash : c ≠ '\\' := by simpa using h₂
    simp only [List.singleton_append]
    rw [stringRest?]
    · rw [if_neg (by omega)]
    all_goals simp_all
  · rw [beq_iff_eq.mp h₄]
    rfl
  · rw [beq_iff_eq.mp h₅]
    rfl
  · rw [beq_iff_eq.mp h₆]
    rfl
  · have : c = Char.ofNat 8 := by rw [← beq_iff_eq.mp h₇, Char.ofNat_toNat]
    rw [this]
    rfl
  · have : c = Char.ofNat 12 := by rw [← beq_iff_eq.mp h₈, Char.ofNat_toNat]
    rw [this]
    rfl
  · simp only [List.cons_append, List.nil_append, stringRest?]
    rw [unicodeEscape?_control c.toNat (by omega), Char.ofNat_toNat]
    rfl

/-- A quoted text is read back, and nothing behind it. -/
theorem stringRest?_escaped (cs : List Char) (fuel : Nat) (acc r : List Char) :
    stringRest? (cs.length + fuel + 1) acc (cs.flatMap escapeChar ++ '"' :: r) =
      some (String.ofList (acc.reverse ++ cs), r) := by
  induction cs generalizing acc with
  | nil => simp [stringRest?]
  | cons c cs ih =>
    rw [List.flatMap_cons, List.append_assoc, List.length_cons, Nat.add_right_comm cs.length 1 fuel,
      stringRest?_escapeChar, ih]
    simp

theorem quote_cancel {s t : String} {r r' : List Char} (h : quote s.toList ++ r = quote t.toList ++ r') :
    s = t ∧ r = r' := by
  have h : s.toList.flatMap escapeChar ++ '"' :: r = t.toList.flatMap escapeChar ++ '"' :: r' := by
    simpa [quote] using h
  have hs := stringRest?_escaped s.toList t.toList.length [] r
  have ht := stringRest?_escaped t.toList s.toList.length [] r'
  rw [h, Nat.add_comm s.toList.length, ht] at hs
  simpa [eq_comm] using hs

/-! ### Numbers -/

theorem isNumeral_of_isDigit {c : Char} (h : c.isDigit = true) : isNumeral c = true := by simp [isNumeral, h]

theorem isDigit_of_mem_repr {n : Nat} {c : Char} (h : c ∈ n.repr.toList) : c.isDigit = true := by
  rw [Nat.toList_repr] at h
  exact Nat.isDigit_of_mem_toDigits (by decide) (by decide) h

theorem mem_int {n : Int} {c : Char} (h : c ∈ (toString n).toList) : c = '-' ∨ c.isDigit = true := by
  rw [Int.toString_eq_repr] at h
  cases n with
  | ofNat m => exact .inr (isDigit_of_mem_repr h)
  | negSucc m =>
    rw [Int.repr, String.toList_append] at h
    rcases List.mem_append.mp h with h | h
    · exact .inl (by simpa using h)
    · exact .inr (isDigit_of_mem_repr h)

theorem int_ne_nil (n : Int) : (toString n).toList ≠ [] := by
  rw [Int.toString_eq_repr]
  cases n <;> simp [Int.repr]

theorem repr_injective {n m : Nat} (h : n.repr.toList = m.repr.toList) : n = m := by
  rw [Nat.toList_repr, Nat.toList_repr] at h
  have hn : Nat.ofDigitChars 10 (Nat.toDigits 10 n) 0 = n := Nat.ofDigitChars_ten_toDigits
  rw [← hn, h, Nat.ofDigitChars_ten_toDigits]

theorem minus_not_mem (n : Nat) : '-' ∉ n.repr.toList := fun h => absurd (isDigit_of_mem_repr h) (by decide)

theorem toString_injective {n m : Int} (h : (toString n).toList = (toString m).toList) : n = m := by
  have hminus : ∀ k : Nat, (Int.negSucc k).repr.toList = '-' :: (k + 1).repr.toList := by
    intro k
    rw [Int.repr, String.toList_append]
    rfl
  rw [Int.toString_eq_repr, Int.toString_eq_repr] at h
  cases n with
  | ofNat n =>
    cases m with
    | ofNat m => rw [repr_injective h]
    | negSucc m =>
      rw [hminus] at h
      exact (minus_not_mem n (h ▸ List.mem_cons_self)).elim
  | negSucc n =>
    cases m with
    | ofNat m =>
      rw [hminus] at h
      exact (minus_not_mem m (h ▸ List.mem_cons_self)).elim
    | negSucc m =>
      rw [hminus, hminus] at h
      have hnm := repr_injective (List.cons.inj h).2
      rw [Nat.add_right_cancel hnm]

/-! ### Fractions -/

/-- The text of a finite fraction: numerals, a point or a mark among them. -/
theorem fraction_numeral {v : Decimal.Value} (h : ∃ s m e n, v = .finite s m e n) :
    ∃ t, v.text? Decimal.jsonLayout = some (String.ofList t) ∧ t ≠ [] ∧ (∀ c ∈ t, isNumeral c = true) ∧
      ('.' ∈ t ∨ 'e' ∈ t) := by
  obtain ⟨s, m, e, n, rfl⟩ := h
  obtain ⟨body, htext, hbody⟩ := Decimal.numeral_text? s m e n
  have hmem : ∀ c ∈ body, isNumeral c = true := by
    intro c hc
    obtain h | h := hbody.mem hc
    · exact isNumeral_of_isDigit h
    · simp only [List.mem_cons, List.not_mem_nil, or_false] at h
      rcases h with rfl | rfl | rfl | rfl <;> rfl
  obtain ⟨c, rest, rfl, -⟩ := hbody.head_isDigit
  refine ⟨_, htext, by simp, ?_, ?_⟩
  · intro d hd
    rcases List.mem_append.mp hd with hd | hd
    · cases s with
      | true => exact List.mem_singleton.mp hd ▸ rfl
      | false => cases hd
    · exact hmem d hd
  · exact hbody.point_or_mark.imp (List.mem_append_right _) (List.mem_append_right _)

theorem fraction_cases (v : Decimal.Value) : v.text? Decimal.jsonLayout = none ∨ ∃ s m e n, v = .finite s m e n := by
  cases v with
  | nan => exact .inl rfl
  | infinite => exact .inl rfl
  | finite s m e n => exact .inr ⟨s, m, e, n, rfl⟩

/-- Finite fractions with one text are the same. -/
theorem floatText_injective {x y : Float} (hx : x.isFinite = true) (hy : y.isFinite = true)
    (h : floatText x = floatText y) : x = y := by
  obtain ⟨t, ht, -⟩ := fraction_numeral (Decimal.exists_finite_ofFloat hx)
  obtain ⟨t', ht', -⟩ := fraction_numeral (Decimal.exists_finite_ofFloat hy)
  refine Decimal.float_of_text? hx hy ?_
  rw [floatText, floatText, ht, ht'] at h
  rw [ht, ht']
  exact congrArg some h

theorem singleText_injective {x y : Float32} (hx : x.isFinite = true) (hy : y.isFinite = true)
    (h : singleText x = singleText y) : x = y := by
  obtain ⟨t, ht, -⟩ := fraction_numeral (Decimal.exists_finite_ofFloat32 hx)
  obtain ⟨t', ht', -⟩ := fraction_numeral (Decimal.exists_finite_ofFloat32 hy)
  refine Decimal.float32_of_text? hx hy ?_
  rw [singleText, singleText, ht, ht'] at h
  rw [ht, ht']
  exact congrArg some h

/-! ### Words and numbers -/

/-- A value that is written as one word or number. -/
def isToken : Json → Bool
  | .str _ | .arr _ | .obj _ => false
  | _ => true

/-- The words. -/
def words : List (List Char) := [chars .null, chars (.bool true), chars (.bool false)]

inductive IsToken : List Char → Prop where
  | word {t : List Char} (h : t ∈ words) : IsToken t
  | number {t : List Char} (hne : t ≠ []) (h : ∀ c ∈ t, isNumeral c = true) : IsToken t

theorem isToken_fraction (v : Decimal.Value) : IsToken ((v.text? Decimal.jsonLayout).getD "null").toList := by
  obtain h | h := fraction_cases v
  · rw [h]
    exact .word (.head _)
  · obtain ⟨t, ht, hne, hn, -⟩ := fraction_numeral h
    rw [ht, Option.getD_some, String.toList_ofList]
    exact .number hne hn

theorem isToken_chars {j : Json} (h : j.isToken = true) : IsToken (chars j) := by
  cases j with
  | null => exact .word (by decide)
  | bool b => cases b <;> exact .word (by decide)
  | int n =>
    refine .number (int_ne_nil n) fun c hc => ?_
    obtain rfl | hd := mem_int hc
    · rfl
    · exact isNumeral_of_isDigit hd
  | float x => exact isToken_fraction _
  | single x => exact isToken_fraction _
  | str | arr | obj => cases h

theorem head_word {t : List Char} (h : t ∈ words) : ∃ c u, t = c :: u ∧ c ∈ ['n', 't', 'f'] := by
  simp only [words, List.mem_cons, List.not_mem_nil, or_false] at h
  rcases h with rfl | rfl | rfl <;> exact ⟨_, _, rfl, by simp⟩

theorem word_eq_of_head : ∀ t ∈ words, ∀ t' ∈ words, t.head? = t'.head? → t = t' := by decide

theorem not_numeral_of_word {c : Char} (h : c ∈ ['n', 't', 'f']) : isNumeral c = false := by
  simp only [List.mem_cons, List.not_mem_nil, or_false] at h
  rcases h with rfl | rfl | rfl <;> rfl

theorem takeWhile_number {t r : List Char} (h : ∀ c ∈ t, isNumeral c = true) (hr : Follows r) :
    (t ++ r).takeWhile isNumeral = t := by
  have hnil : r.takeWhile isNumeral = [] := by
    cases r with
    | nil => rfl
    | cons c r => simp [hr c rfl]
  rw [List.takeWhile_append_of_pos h, hnil, List.append_nil]

theorem word_ne_number {t t' : List Char} {r r' : List Char} (ht : t ∈ words) (hne : t' ≠ [])
    (hn : ∀ c ∈ t', isNumeral c = true) : t ++ r ≠ t' ++ r' := by
  obtain ⟨c, u, rfl, hc⟩ := head_word ht
  intro h
  cases t' with
  | nil => exact hne rfl
  | cons d t' =>
    obtain rfl := (List.cons.inj h).1
    exact absurd (hn c (by simp)) (by simp [not_numeral_of_word hc])

theorem token_cancel {t t' r r' : List Char} (ht : IsToken t) (ht' : IsToken t') (hr : Follows r) (hr' : Follows r')
    (h : t ++ r = t' ++ r') : t = t' ∧ r = r' := by
  have htt : t = t' := by
    cases ht with
    | word ht =>
      cases ht' with
      | word ht' =>
        obtain ⟨c, u, rfl, -⟩ := head_word ht
        obtain ⟨c', u', rfl, -⟩ := head_word ht'
        exact word_eq_of_head _ ht _ ht' (congrArg some (List.cons.inj h).1)
      | number hne hn => exact (word_ne_number ht hne hn h).elim
    | number hne hn =>
      cases ht' with
      | word ht' => exact (word_ne_number ht' hne hn h.symm).elim
      | number hne' hn' => rw [← takeWhile_number hn hr, h, takeWhile_number hn' hr']
  exact ⟨htt, List.append_cancel_left (htt ▸ h)⟩

/-! ### Arrays and objects -/

/-- The texts of some items, with commas between them. -/
def separated : List (List Char) → List Char
  | [] => []
  | [x] => x
  | x :: rest => x ++ ',' :: separated rest

theorem itemChars_eq (items : List Json) : itemChars items = separated (items.map chars) := by
  induction items with
  | nil => rfl
  | cons j rest ih =>
    cases rest with
    | nil => rfl
    | cons j' rest =>
      rw [itemChars, ih]
      · rfl
      · exact List.cons_ne_nil _ _

/-- The text of a field. -/
def fieldText (f : String × Json) : List Char := quote f.1.toList ++ ':' :: chars f.2

theorem fieldChars_eq (fields : List (String × Json)) : fieldChars fields = separated (fields.map fieldText) := by
  induction fields with
  | nil => rfl
  | cons f rest ih =>
    cases rest with
    | nil => rfl
    | cons f' rest =>
      rw [fieldChars, ih]
      · simp [fieldText, separated]
      · exact List.cons_ne_nil _ _

/-- What comes after the first of some items and a closing bracket. -/
def afterFirst (close : Char) (r : List Char) : List (List Char) → List Char
  | [] => close :: r
  | rest => ',' :: (separated rest ++ close :: r)

theorem separated_cons (x : List Char) (rest : List (List Char)) (close : Char) (r : List Char) :
    separated (x :: rest) ++ close :: r = x ++ afterFirst close r rest := by
  cases rest <;> simp [separated, afterFirst]

/-- If the texts of items tell something of them, so does the text of a list of items. -/
theorem separated_cancel {α β : Type} {text : α → List Char} (told : α → β) {close : Char} {xs ys : List α}
    {r r' : List Char} (hclose : isNumeral close = false) (hcomma : close ≠ ',')
    (opens : ∀ a ∈ xs ++ ys, ∀ s t, text a ++ s ≠ close :: t)
    (cancel : ∀ a ∈ xs, ∀ b ∈ ys, ∀ s s', Follows s → Follows s' → text a ++ s = text b ++ s' → told a = told b ∧ s = s')
    (h : separated (xs.map text) ++ close :: r = separated (ys.map text) ++ close :: r') :
    xs.map told = ys.map told ∧ r = r' := by
  have hfollows : ∀ r rest, Follows (afterFirst close r rest) := by
    intro r rest
    cases rest
    · exact follows_cons hclose
    · exact follows_cons rfl
  induction xs generalizing ys with
  | nil =>
    cases ys with
    | nil => exact ⟨rfl, (List.cons.inj h).2⟩
    | cons b ys =>
      rw [List.map_cons, separated_cons] at h
      exact (opens b (by simp) _ _ h.symm).elim
  | cons a xs ih =>
    cases ys with
    | nil =>
      rw [List.map_cons, separated_cons] at h
      exact (opens a (by simp) _ _ h).elim
    | cons b ys =>
      rw [List.map_cons, List.map_cons, separated_cons, separated_cons] at h
      obtain ⟨hab, hrest⟩ := cancel a (by simp) b (by simp) _ _ (hfollows _ _) (hfollows _ _) h
      have hsub : ∀ d ∈ xs ++ ys, d ∈ a :: xs ++ b :: ys := by
        intro d hd
        rcases List.mem_append.mp hd with hd | hd <;> simp [hd]
      have hih := @ih ys (fun d hd => opens d (hsub d hd))
        fun d hd e he => cancel d (List.mem_cons_of_mem a hd) e (List.mem_cons_of_mem b he)
      cases xs with
      | nil =>
        cases ys with
        | nil => exact ⟨by rw [List.map_cons, List.map_cons, hab], (List.cons.inj hrest).2⟩
        | cons b' ys => exact (hcomma (List.cons.inj hrest).1).elim
      | cons a' xs =>
        cases ys with
        | nil => exact (hcomma (List.cons.inj hrest).1.symm).elim
        | cons b' ys =>
          obtain ⟨heq, hr⟩ := hih (List.cons.inj hrest).2
          exact ⟨by rw [List.map_cons, List.map_cons (l := b' :: ys), hab, heq], hr⟩

/-! ### Values -/

theorem arr_chars_append (items : List Json) (r : List Char) :
    chars (.arr items) ++ r = '[' :: (separated (items.map chars) ++ ']' :: r) := by
  simp [chars, itemChars_eq]

theorem obj_chars_append (fields : List (String × Json)) (r : List Char) :
    chars (.obj fields) ++ r = '\x7b' :: (separated (fields.map fieldText) ++ '\x7d' :: r) := by
  simp [chars, fieldChars_eq]

/-- How the text of a value begins; words and numbers are taken for one. -/
def leading : Json → Char
  | .str _ => '"'
  | .arr _ => '['
  | .obj _ => '\x7b'
  | _ => '0'

/-- A character that opens a text, an array or an object. -/
def isOpening (c : Char) : Bool := c == '"' || c == '[' || c == '\x7b'

theorem head_token {t : List Char} (h : IsToken t) : ∃ c u, t = c :: u ∧ isOpening c = false ∧ c ≠ ']' := by
  cases h with
  | word h =>
    obtain ⟨c, u, rfl, hc⟩ := head_word h
    refine ⟨c, u, rfl, ?_⟩
    simp only [List.mem_cons, List.not_mem_nil, or_false] at hc
    rcases hc with rfl | rfl | rfl <;> decide
  | number hne h =>
    cases t with
    | nil => exact (hne rfl).elim
    | cons c u =>
      have hc := h c List.mem_cons_self
      refine ⟨c, u, rfl, ?_, fun hclose => ?_⟩
      · by_contra hopen
        rw [Bool.not_eq_false, isOpening, Bool.or_eq_true, Bool.or_eq_true, beq_iff_eq, beq_iff_eq, beq_iff_eq] at hopen
        obtain (rfl | rfl) | rfl := hopen <;> cases hc
      · rw [hclose] at hc
        cases hc

theorem chars_leading (j : Json) : ∃ c t, chars j = c :: t ∧ (if isOpening c then c else '0') = leading j ∧ c ≠ ']' := by
  by_cases hj : j.isToken = true
  · obtain ⟨c, u, hc, hopen, hclose⟩ := head_token (isToken_chars hj)
    refine ⟨c, u, hc, ?_, hclose⟩
    rw [hopen]
    cases j <;> first | rfl | cases hj
  · cases j with
    | str s => exact ⟨_, _, rfl, rfl, by decide⟩
    | arr items => exact ⟨_, _, rfl, rfl, by decide⟩
    | obj fields => exact ⟨_, _, rfl, rfl, by decide⟩
    | _ => exact absurd rfl hj

/-- No value begins like the end of an array. -/
theorem chars_ne_close (j : Json) (s t : List Char) : chars j ++ s ≠ ']' :: t := by
  obtain ⟨c, cs, hc, -, hne⟩ := chars_leading j
  intro h
  rw [hc, List.cons_append] at h
  exact hne (List.cons.inj h).1

theorem leading_eq {j j' : Json} {r r' : List Char} (h : chars j ++ r = chars j' ++ r') : leading j = leading j' := by
  obtain ⟨c, cs, hc, hl, -⟩ := chars_leading j
  obtain ⟨c', cs', hc', hl', -⟩ := chars_leading j'
  rw [hc, hc', List.cons_append, List.cons_append] at h
  rw [← hl, ← hl', (List.cons.inj h).1]

/-- What is written of a value: of words and numbers their texts. -/
inductive Written where
  | token (text : List Char)
  | str (s : String)
  | arr (items : List Written)
  | obj (fields : List (String × Written))

mutual

def written : Json → Written
  | .str s => .str s
  | .arr items => .arr (writtenItems items)
  | .obj fields => .obj (writtenFields fields)
  | j => .token (chars j)

def writtenItems : List Json → List Written
  | [] => []
  | j :: rest => written j :: writtenItems rest

def writtenFields : List (String × Json) → List (String × Written)
  | [] => []
  | (k, j) :: rest => (k, written j) :: writtenFields rest

end

theorem writtenItems_eq (items : List Json) : writtenItems items = items.map written := by
  induction items with
  | nil => rfl
  | cons j rest ih => rw [writtenItems, ih, List.map_cons]

/-- What is written of a field. -/
def writtenField (f : String × Json) : String × Written := (f.1, written f.2)

theorem writtenFields_eq (fields : List (String × Json)) : writtenFields fields = fields.map writtenField := by
  induction fields with
  | nil => rfl
  | cons f rest ih => rw [writtenFields, ih, List.map_cons, writtenField]

@[simp] theorem written_arr (items : List Json) : written (.arr items) = .arr (items.map written) := by
  rw [written, writtenItems_eq]

@[simp] theorem written_obj (fields : List (String × Json)) : written (.obj fields) = .obj (fields.map writtenField) := by
  rw [written, writtenFields_eq]

theorem written_token {j : Json} (h : j.isToken = true) : written j = .token (chars j) := by
  cases j <;> first | rfl | cases h

/-- Values are words and numbers, texts, arrays of values and objects of values. -/
theorem induct {P : Json → Prop} (token : ∀ j, j.isToken = true → P j) (str : ∀ s, P (.str s))
    (arr : ∀ items, (∀ j ∈ items, P j) → P (.arr items)) (obj : ∀ fields, (∀ f ∈ fields, P f.2) → P (.obj fields))
    (j : Json) : P j :=
  @Json.rec P (fun items => ∀ j ∈ items, P j) (fun fields => ∀ f ∈ fields, P f.2) (fun f => P f.2) (token _ rfl)
    (fun _ => token _ rfl) (fun _ => token _ rfl) (fun _ => token _ rfl) (fun _ => token _ rfl) str arr obj nofun
    (fun _ _ hj hrest => List.forall_mem_cons.mpr ⟨hj, hrest⟩) nofun
    (fun _ _ hf hrest => List.forall_mem_cons.mpr ⟨hf, hrest⟩) (fun _ _ hj => hj) j

/-- The beginning of a text tells what is written. -/
theorem chars_cancel {j j' : Json} {r r' : List Char} (hr : Follows r) (hr' : Follows r')
    (h : chars j ++ r = chars j' ++ r') : written j = written j' ∧ r = r' := by
  have hl := leading_eq h
  induction j using induct generalizing j' r r' with
  | token j hj =>
    have hl : '0' = leading j' := by rw [← hl]; cases j <;> first | rfl | cases hj
    have hj' : j'.isToken = true := by cases j' <;> first | rfl | cases hl
    obtain ⟨ht, hrest⟩ := token_cancel (isToken_chars hj) (isToken_chars hj') hr hr' h
    exact ⟨by rw [written_token hj, written_token hj', ht], hrest⟩
  | str s =>
    cases j' with
    | str t =>
      obtain ⟨rfl, hrest⟩ := quote_cancel h
      exact ⟨rfl, hrest⟩
    | _ => cases hl
  | arr items ih =>
    cases j' with
    | arr items' =>
      rw [arr_chars_append, arr_chars_append] at h
      obtain ⟨hitems, hrest⟩ := separated_cancel written rfl (by decide) (fun j _ => chars_ne_close j)
        (fun j hj j' _ s s' hs hs' h => ih j hj hs hs' h (leading_eq h)) (List.cons.inj h).2
      exact ⟨by rw [written_arr, written_arr, hitems], hrest⟩
    | _ => cases hl
  | obj fields ih =>
    cases j' with
    | obj fields' =>
      rw [obj_chars_append, obj_chars_append] at h
      obtain ⟨hfields, hrest⟩ := separated_cancel writtenField rfl (by decide) (fun f _ s t h => by cases h)
        (fun f hf f' _ s s' hs hs' h => by
          rw [fieldText, fieldText, List.append_assoc, List.append_assoc] at h
          obtain ⟨hk, h⟩ := quote_cancel h
          have h := (List.cons.inj h).2
          obtain ⟨hj, hs⟩ := ih f hf hs hs' h (leading_eq h)
          exact ⟨Prod.ext hk hj, hs⟩) (List.cons.inj h).2
      exact ⟨by rw [written_obj, written_obj, hfields], hrest⟩
    | _ => cases hl

/-- What is written is told by the text. -/
theorem written_of_compact {j j' : Json} (h : j.compact = j'.compact) : written j = written j' := by
  have h : chars j = chars j' := String.ofList_injective h
  have hnil : Follows [] := by simp [Follows]
  exact (chars_cancel hnil hnil (by rw [h])).1

/-! ### Plain values -/

theorem chars_float {x : Float} (hx : x.isFinite = true) : (∀ c ∈ chars (.float x), isNumeral c = true) ∧
    ('.' ∈ chars (.float x) ∨ 'e' ∈ chars (.float x)) := by
  obtain ⟨t, ht, -, hn, hpoint⟩ := fraction_numeral (Decimal.exists_finite_ofFloat hx)
  have htext : chars (.float x) = t := by
    show (floatText x).toList = t
    rw [floatText, ht, Option.getD_some, String.toList_ofList]
  rw [htext]
  exact ⟨hn, hpoint⟩

theorem chars_int {n : Int} {c : Char} (h : c ∈ chars (.int n)) : isNumeral c = true ∧ c ≠ '.' ∧ c ≠ 'e' := by
  obtain rfl | hd := mem_int h
  · decide
  · refine ⟨isNumeral_of_isDigit hd, ?_, ?_⟩ <;> rintro rfl <;> cases hd

theorem int_ne_float {n : Int} {x : Float} (hx : x.isFinite = true) : chars (.int n) ≠ chars (.float x) := by
  intro h
  obtain hpoint | hmark := (chars_float hx).2
  · exact (chars_int (h ▸ hpoint)).2.1 rfl
  · exact (chars_int (h ▸ hmark)).2.2 rfl

theorem plain_token {j : Json} (hj : Plain j) (ht : j.isToken = true) :
    j ∈ [.null, .bool true, .bool false] ∨ (∃ n, j = .int n) ∨ ∃ x : Float, x.isFinite = true ∧ j = .float x := by
  cases hj with
  | null => exact .inl (by simp)
  | bool b => cases b <;> exact .inl (by simp)
  | int n => exact .inr (.inl ⟨n, rfl⟩)
  | float hx => exact .inr (.inr ⟨_, hx, rfl⟩)
  | str | arr | obj => cases ht

theorem word_of_mem {j : Json} (h : j ∈ [.null, .bool true, .bool false]) : chars j ∈ words := by
  simp only [List.mem_cons, List.not_mem_nil, or_false] at h
  rcases h with rfl | rfl | rfl <;> decide

theorem word_injective {j j' : Json} (hj : j ∈ [.null, .bool true, .bool false])
    (hj' : j' ∈ [.null, .bool true, .bool false]) (h : chars j = chars j') : j = j' := by
  simp only [List.mem_cons, List.not_mem_nil, or_false] at hj hj'
  rcases hj with rfl | rfl | rfl <;> rcases hj' with rfl | rfl | rfl <;>
    first | rfl | exact absurd h (by decide)

/-- The text of a number is no word. -/
theorem number_not_word {j : Json} (hj : (∃ n, j = .int n) ∨ ∃ x : Float, x.isFinite = true ∧ j = .float x) :
    chars j ∉ words := by
  intro hw
  obtain ⟨c, u, hc, hword⟩ := head_word hw
  have hmem : c ∈ chars j := by rw [hc]; exact List.mem_cons_self
  have hn : isNumeral c = true := by
    obtain ⟨n, rfl⟩ | ⟨x, hx, rfl⟩ := hj
    · exact (chars_int hmem).1
    · exact (chars_float hx).1 c hmem
  rw [not_numeral_of_word hword] at hn
  cases hn

theorem token_injective {j j' : Json} (hj : Plain j) (hj' : Plain j') (ht : j.isToken = true) (ht' : j'.isToken = true)
    (h : chars j = chars j') : j = j' := by
  obtain hw | hn := plain_token hj ht
  · obtain hw' | hn' := plain_token hj' ht'
    · exact word_injective hw hw' h
    · exact (number_not_word hn' (h ▸ word_of_mem hw)).elim
  · obtain hw' | hn' := plain_token hj' ht'
    · exact (number_not_word hn (h ▸ word_of_mem hw')).elim
    · obtain ⟨n, rfl⟩ | ⟨x, hx, rfl⟩ := hn <;> obtain ⟨m, rfl⟩ | ⟨y, hy, rfl⟩ := hn'
      · rw [toString_injective h]
      · exact (int_ne_float hy h).elim
      · exact (int_ne_float hx h.symm).elim
      · rw [floatText_injective hx hy (String.toList_inj.mp h)]

theorem eq_of_map_eq {α β : Type} {f : α → β} {xs ys : List α} (inj : ∀ a ∈ xs, ∀ b ∈ ys, f a = f b → a = b)
    (h : xs.map f = ys.map f) : xs = ys := by
  induction xs generalizing ys with
  | nil => exact (List.map_eq_nil_iff.mp h.symm).symm
  | cons a xs ih =>
    cases ys with
    | nil => cases h
    | cons b ys =>
      obtain ⟨hab, hrest⟩ := List.cons.inj h
      have hxy := ih (fun a' ha b' hb => inj a' (List.mem_cons_of_mem a ha) b' (List.mem_cons_of_mem b hb)) hrest
      rw [inj a (by simp) b (by simp) hab, hxy]

/-- Plain values of which the same is written are the same. -/
theorem written_injective {j j' : Json} (hj : Plain j) (hj' : Plain j') (h : written j = written j') : j = j' := by
  induction j using induct generalizing j' with
  | token j ht =>
    rw [written_token ht] at h
    have ht' : j'.isToken = true := by cases j' <;> first | rfl | simp [written] at h
    rw [written_token ht'] at h
    exact token_injective hj hj' ht ht' (Written.token.inj h)
  | str s =>
    cases hj' with
    | str t => rw [Written.str.inj h]
    | arr => simp [written] at h
    | obj => simp [written] at h
    | _ => cases h
  | arr items ih =>
    cases hj with
    | arr hitems =>
      rw [written_arr] at h
      cases hj' with
      | arr hitems' =>
        rw [written_arr] at h
        rw [eq_of_map_eq (fun j hm j' hm' => ih j hm (hitems j hm) (hitems' j' hm')) (Written.arr.inj h)]
      | obj => simp [written] at h
      | _ => cases h
  | obj fields ih =>
    cases hj with
    | obj hfields =>
      rw [written_obj] at h
      cases hj' with
      | obj hfields' =>
        rw [written_obj] at h
        refine congrArg Json.obj (eq_of_map_eq (fun f hm f' hm' hff => ?_) (Written.obj.inj h))
        obtain ⟨hk, hv⟩ := Prod.mk.inj hff
        exact Prod.ext hk (ih f hm (hfields f hm) (hfields' f' hm') hv)
      | arr => simp [written] at h
      | _ => cases h

/-- Two values with one text are the same. -/
theorem compact_injective {j j' : Json} (hj : Plain j) (hj' : Plain j') (h : j.compact = j'.compact) : j = j' :=
  written_injective hj hj' (written_of_compact h)

/-- Two texts with a bar between them can be told apart. -/
theorem compact_bar_cancel {a b a' b' : Json} (ha : Plain a) (ha' : Plain a') (hb : Plain b) (hb' : Plain b')
    (h : a.compact ++ "|" ++ b.compact = a'.compact ++ "|" ++ b'.compact) : a = a' ∧ b = b' := by
  have h : chars a ++ '|' :: chars b = chars a' ++ '|' :: chars b' := by
    simpa [compact] using congrArg String.toList h
  obtain ⟨haa, hrest⟩ := chars_cancel (follows_cons rfl) (follows_cons rfl) h
  exact ⟨written_injective ha ha' haa, compact_injective hb hb' (congrArg String.ofList (List.cons.inj hrest).2)⟩

/-! ### Types without fractions of single precision -/

/-- A type whose values have no fractions of single precision in them. -/
class PlainWire (α : Type) [Wire α] : Prop where
  plain (a : α) : Plain (encode a)

export PlainWire (plain)

instance : PlainWire String := ⟨fun s => .str s⟩

instance : PlainWire Bool := ⟨fun b => .bool b⟩

instance : PlainWire Int64 := ⟨fun n => .int n.toInt⟩

instance : PlainWire Nat := ⟨fun n => .int n⟩

/-- A fraction that is not finite is written as null. -/
instance : PlainWire Float where
  plain x := by
    show Plain (ofFloat x)
    unfold ofFloat
    split
    · exact .float ‹_›
    · exact .null

instance {α : Type} [Wire α] [PlainWire α] : PlainWire (Option α) where
  plain o := by
    cases o with
    | none => exact .null
    | some a => exact plain a

instance {α : Type} [Wire α] [PlainWire α] : PlainWire (List α) where
  plain xs := .arr fun j hj => by
    obtain ⟨a, -, rfl⟩ := List.mem_map.mp hj
    exact plain a

/-- The fields that are there are plain. -/
def PlainFields (fields : List (Option (String × Json))) : Prop := ∀ o ∈ fields, ∀ f ∈ o, Plain f.2

theorem plain_object {fields : List (Option (String × Json))} (h : PlainFields fields) : Plain (object fields) := by
  refine .obj fun f hf => ?_
  obtain ⟨o, ho, hof⟩ := List.mem_filterMap.mp hf
  exact h o ho f hof

namespace PlainFields

variable {α : Type} [Wire α] [PlainWire α] {name : String} {rest : List (Option (String × Json))}

theorem nil : PlainFields [] := by simp [PlainFields]

theorem put {a : α} (h : PlainFields rest) : PlainFields (Json.put name a :: rest) := by
  refine List.forall_mem_cons.mpr ⟨fun f hf => ?_, h⟩
  obtain rfl := Option.some.inj hf
  exact plain a

theorem putSome {o : Option α} (h : PlainFields rest) : PlainFields (Json.putSome name o :: rest) := by
  refine List.forall_mem_cons.mpr ⟨fun f hf => ?_, h⟩
  obtain ⟨a, -, rfl⟩ := Option.map_eq_some_iff.mp hf
  exact plain a

end PlainFields

end CodeAtlas.Json
