import CodeAtlas.Source.Range
import Mathlib.Data.List.DropRight
import Mathlib.Data.List.Infix

/-! The word at a position.

A run of word characters at a column consists of an end of what is left of the column and a
start of what is right of it (`isRunAt_iff`). What is read from the column in both
directions is such a run, and every run at the column is a part of it (`isInfix_wordRun`),
so it is the longest one (`isLongestRun_iff`). It is empty just when neither of the
characters next to the column makes words (`wordRun_eq_nil_iff`). -/
namespace CodeAtlas

variable {chars word : List Char} {column : Nat}

/-- A run of word characters in a line that ends at, begins at or holds a column. -/
def IsRunAt (chars : List Char) (column : Nat) (word : List Char) : Prop :=
  ∃ left right, chars = left ++ word ++ right ∧ left.length ≤ column ∧ column ≤ left.length + word.length ∧
    ∀ c ∈ word, isWordPart c = true

def IsLongestRun (chars : List Char) (column : Nat) (word : List Char) : Prop :=
  IsRunAt chars column word ∧ ∀ other, IsRunAt chars column other → other.length ≤ word.length

/-! ### Runs at a column -/

theorem isRunAt_iff (hcolumn : column ≤ chars.length) : IsRunAt chars column word ↔
    ∃ before after, word = before ++ after ∧ before <:+ chars.take column ∧ after <+: chars.drop column ∧
      ∀ c ∈ word, isWordPart c = true := by
  constructor
  · rintro ⟨left, right, rfl, hstart, hstop, hword⟩
    refine ⟨word.take (column - left.length), word.drop (column - left.length), (List.take_append_drop ..).symm,
      ⟨left, ?_⟩, ⟨right, ?_⟩, hword⟩
    · rw [List.append_assoc, List.take_append, List.take_of_length_le hstart,
        List.take_append_of_le_length (Nat.sub_le_iff_le_add'.mpr hstop)]
    · rw [List.append_assoc, List.drop_append, List.drop_of_length_le hstart, List.nil_append,
        List.drop_append_of_le_length (Nat.sub_le_iff_le_add'.mpr hstop)]
  · rintro ⟨before, after, rfl, ⟨left, hleft⟩, ⟨right, hright⟩, hword⟩
    have hlength := congrArg List.length hleft
    rw [List.length_append, List.length_take_of_le hcolumn] at hlength
    refine ⟨left, right, ?_, Nat.le.intro hlength, ?_, hword⟩
    · rw [← List.append_assoc, hleft, List.append_assoc, hright, List.take_append_drop]
    · rw [List.length_append, ← Nat.add_assoc, hlength]
      exact Nat.le_add_right ..

theorem isRunAt_singleton {i : Nat} {c : Char} (hc : chars[i]? = some c) (hpart : isWordPart c = true)
    (hnext : i + 1 = column ∨ i = column) : IsRunAt chars column [c] := by
  obtain ⟨hi, rfl⟩ := List.getElem?_eq_some_iff.mp hc
  refine ⟨chars.take i, chars.drop (i + 1), ?_, ?_, ?_, by simpa using hpart⟩
  · rw [List.append_assoc, List.singleton_append, ← List.drop_eq_getElem_cons hi, List.take_append_drop]
  · rw [List.length_take_of_le hi.le]
    omega
  · rw [List.length_take_of_le hi.le, List.length_singleton]
    omega

/-- A run that is not empty has a character next to the column. -/
theorem IsRunAt.exists_next (h : IsRunAt chars column word) (hne : word ≠ []) :
    ∃ i c, (i + 1 = column ∨ i = column) ∧ chars[i]? = some c ∧ isWordPart c = true := by
  obtain ⟨left, right, rfl, hstart, hstop, hword⟩ := h
  have hpos : 0 < word.length := List.length_pos_iff.mpr hne
  obtain ⟨k, hk, hnext⟩ : ∃ k < word.length, left.length + k + 1 = column ∨ left.length + k = column := by
    rcases hstart.eq_or_lt with heq | hlt
    · exact ⟨0, hpos, .inr heq⟩
    · exact ⟨column - left.length - 1, by omega, .inl (by omega)⟩
  refine ⟨left.length + k, word[k], hnext, ?_, hword _ (List.getElem_mem hk)⟩
  rw [List.append_assoc, List.getElem?_append_right (Nat.le_add_right ..), Nat.add_sub_cancel_left,
    List.getElem?_append_left hk, List.getElem?_eq_getElem hk]

/-! ### The run that is read -/

/-- What is read to the left and to the right of a column. -/
def wordRun (chars : List Char) (column : Nat) : List Char :=
  (chars.take column).rtakeWhile isWordPart ++ (chars.drop column).takeWhile isWordPart

theorem isRunAt_wordRun (hcolumn : column ≤ chars.length) : IsRunAt chars column (wordRun chars column) := by
  refine (isRunAt_iff hcolumn).mpr ⟨_, _, rfl, List.rtakeWhile_suffix .., List.takeWhile_prefix .., fun c hc => ?_⟩
  rcases List.mem_append.mp hc with hc | hc
  · exact List.mem_rtakeWhile_imp hc
  · exact List.mem_takeWhile_imp hc

/-- A start that satisfies a test throughout is read while the test holds. -/
theorem prefix_takeWhile {p : Char → Bool} {start cs : List Char} (h : start <+: cs) (hp : ∀ c ∈ start, p c = true) :
    start <+: cs.takeWhile p := by
  obtain ⟨rest, rfl⟩ := h
  rw [List.takeWhile_append_of_pos hp]
  exact List.prefix_append ..

theorem suffix_rtakeWhile {p : Char → Bool} {stop cs : List Char} (h : stop <:+ cs) (hp : ∀ c ∈ stop, p c = true) :
    stop <:+ cs.rtakeWhile p := by
  rw [← List.reverse_prefix, List.rtakeWhile, List.reverse_reverse]
  exact prefix_takeWhile (List.reverse_prefix.mpr h) fun c hc => hp c (List.mem_reverse.mp hc)

/-- What is read from within a run is all of it, and perhaps more. -/
theorem isInfix_wordRun (hcolumn : column ≤ chars.length) (h : IsRunAt chars column word) :
    word <:+: wordRun chars column := by
  obtain ⟨before, after, rfl, hbefore, hafter, hword⟩ := (isRunAt_iff hcolumn).mp h
  obtain ⟨left, hleft⟩ := suffix_rtakeWhile hbefore fun c hc => hword c (List.mem_append_left _ hc)
  obtain ⟨right, hright⟩ := prefix_takeWhile hafter fun c hc => hword c (List.mem_append_right _ hc)
  exact ⟨left, right, by rw [wordRun, ← hleft, ← hright, List.append_assoc, List.append_assoc, List.append_assoc]⟩

theorem isLongestRun_iff (hcolumn : column ≤ chars.length) :
    IsLongestRun chars column word ↔ word = wordRun chars column := by
  constructor
  · rintro ⟨hrun, hlongest⟩
    exact (isInfix_wordRun hcolumn hrun).eq_of_length_le (hlongest _ (isRunAt_wordRun hcolumn))
  · rintro rfl
    exact ⟨isRunAt_wordRun hcolumn, fun other h => (isInfix_wordRun hcolumn h).length_le⟩

theorem wordRun_eq_nil_iff (hcolumn : column ≤ chars.length) : wordRun chars column = [] ↔
    ∀ i c, (i + 1 = column ∨ i = column) → chars[i]? = some c → isWordPart c = false := by
  constructor
  · intro hnil i c hnext hc
    by_contra hpart
    have hinfix := isInfix_wordRun hcolumn (isRunAt_singleton hc (Bool.not_eq_false _ ▸ hpart) hnext)
    rw [hnil, List.infix_nil] at hinfix
    exact List.cons_ne_nil _ _ hinfix
  · intro hnone
    by_contra hne
    obtain ⟨i, c, hnext, hc, hpart⟩ := (isRunAt_wordRun hcolumn).exists_next hne
    rw [hnone i c hnext hc] at hpart
    exact Bool.false_ne_true hpart

/-! ### The word at a position -/

section
variable {text line : String} {p : Position}

theorem wordAt_of_line (hline : (Text.lines text)[p.line.toNat]? = some line) :
    wordAt text p = if (wordRun line.toList (min p.character.toNat line.length)).isEmpty then none
      else some (String.ofList (wordRun line.toList (min p.character.toNat line.length))) := by
  rw [wordAt, hline]
  rfl

theorem wordAt_eq_none_iff (hline : (Text.lines text)[p.line.toNat]? = some line) :
    wordAt text p = none ↔ wordRun line.toList (min p.character.toNat line.length) = [] := by
  rw [wordAt_of_line hline]
  simp

theorem wordAt_eq_some_iff (hline : (Text.lines text)[p.line.toNat]? = some line) {word : String} :
    wordAt text p = some word ↔
      word ≠ "" ∧ word.toList = wordRun line.toList (min p.character.toNat line.length) := by
  rw [wordAt_of_line hline, ne_eq, ← String.toList_eq_nil_iff]
  cases wordRun line.toList (min p.character.toNat line.length) with
  | nil => simp
  | cons c rest =>
    rw [List.isEmpty_cons, if_neg Bool.false_ne_true, Option.some.injEq, ← String.toList_inj, String.toList_ofList,
      eq_comm]
    exact ⟨fun h => ⟨h ▸ List.cons_ne_nil c rest, h⟩, And.right⟩

end

/-- There is no word in a line that does not exist. In a line, the word at a column, which
is the end of the line for all columns beyond it, is the longest run of letters, digits and
underscores that ends at, begins at or holds the column. There is none just when neither the
character before the column nor the one at it is of that kind. -/
theorem wordAt_is_longest_run (text : String) (p : Position) :
    ((Text.lines text)[p.line.toNat]? = none → wordAt text p = none) ∧
      ∀ line, (Text.lines text)[p.line.toNat]? = some line →
        let column := min p.character.toNat line.length
        (∀ word, wordAt text p = some word ↔ word ≠ "" ∧ IsLongestRun line.toList column word.toList) ∧
          (wordAt text p = none ↔
            ∀ i c, (i + 1 = column ∨ i = column) → line.toList[i]? = some c → isWordPart c = false) := by
  constructor
  · intro hline
    rw [wordAt, hline]
    rfl
  · intro line hline column
    have hcolumn : column ≤ line.toList.length := min_le_right ..
    constructor
    · intro word
      rw [isLongestRun_iff hcolumn]
      exact wordAt_eq_some_iff hline
    · rw [← wordRun_eq_nil_iff hcolumn]
      exact wordAt_eq_none_iff hline

/-- A column beyond the end of a line finds the word at its end. -/
theorem wordAt_end_of_line :
    let text := "use a;\r\n  let größe_2\r\n"
    let p : Position := ⟨1, 40⟩
    (Text.lines text)[p.line.toNat]? = some "  let größe_2" ∧ wordAt text p = some "größe_2" ∧
      IsLongestRun "  let größe_2".toList 13 "größe_2".toList := by
  intro text p
  have hline : (Text.lines text)[p.line.toNat]? = some "  let größe_2" := by decide +kernel
  have hword : wordAt text p = some "größe_2" := by decide +kernel
  exact ⟨hline, hword, (((wordAt_is_longest_run text p).2 _ hline).1 _).mp hword |>.2⟩

end CodeAtlas
