import CodeAtlas.Proofs.Text.Reading

/-! What a search finds.

A search goes through a text from left to right. Every match that it finds is the one at
the place where it begins (`Pattern.mem_findAll`), and the matches stand apart: each begins
after the one before it begins, and not before that one ends (`Pattern.pairwise_findAll`).
The first of them is at the first place where there is one (`Pattern.find?_eq`). -/
namespace CodeAtlas.Text.Pattern

variable {p : Pattern} {text : List Char} {m : Match} {s : Span}

theorem exists_of_mem_search {skip : Nat} (c : Cursor) (h : m ∈ search p skip c.position c.before c.rest) :
    ∃ i, skip ≤ i ∧ i ≤ c.rest.length ∧ matchAt? p (c.skip i) = some m := by
  obtain ⟨position, before, rest⟩ := c
  induction rest generalizing skip position before with
  | nil =>
    simp only [search] at h
    split at h
    · rename_i hmatch
      obtain rfl := List.mem_singleton.mp h
      exact ⟨0, Nat.le_refl 0, Nat.le_refl 0, hmatch⟩
    · cases h
  | cons x rest ih =>
    have hlater {skip' : Nat} (h : m ∈ search p skip' (position + 1) (some x) rest) (hle : skip ≤ skip' + 1) :
        ∃ i, skip ≤ i ∧ i ≤ (x :: rest).length ∧
          matchAt? p ((⟨position, before, x :: rest⟩ : Cursor).skip i) = some m := by
      obtain ⟨i, hskip, hi, hmatch⟩ := ih (position + 1) (some x) h
      exact ⟨i + 1, by omega, Nat.succ_le_succ hi, hmatch⟩
    cases skip with
    | succ k => exact hlater h (Nat.le_refl _)
    | zero =>
      simp only [search] at h
      split at h
      · rename_i first hmatch
        rcases List.mem_cons.mp h with rfl | h
        · exact ⟨0, Nat.le_refl 0, Nat.zero_le _, hmatch⟩
        · exact hlater h (Nat.zero_le _)
      · exact hlater h (Nat.zero_le _)

theorem head?_search (p : Pattern) (c : Cursor) : (search p 0 c.position c.before c.rest).head? =
    (List.range (c.rest.length + 1)).findSome? fun i => matchAt? p (c.skip i) := by
  obtain ⟨position, before, rest⟩ := c
  induction rest generalizing position before with
  | nil =>
    simp only [search]
    cases h : matchAt? p ⟨position, before, []⟩ <;> simp [h]
  | cons x rest ih =>
    rw [List.length_cons, List.range_succ_eq_map, List.findSome?_cons, List.findSome?_map, Cursor.skip_zero]
    simp only [search]
    cases h : matchAt? p ⟨position, before, x :: rest⟩ with
    | some m => rfl
    | none => exact ih (position + 1) (some x)

/-- The first match is at the first place where there is one. -/
theorem find?_eq (p : Pattern) (text : List Char) :
    p.find? text = (List.range (text.length + 1)).findSome? fun i => matchAt? p ((Cursor.ofText text).skip i) :=
  head?_search p (.ofText text)

theorem findSome?_congr {α β : Type} {f g : α → Option β} {xs : List α} (h : ∀ x ∈ xs, f x = g x) :
    xs.findSome? f = xs.findSome? g := by
  induction xs with
  | nil => rfl
  | cons x rest ih =>
    rw [List.findSome?_cons, List.findSome?_cons, h x List.mem_cons_self, ih fun y hy => h y (List.mem_cons_of_mem x hy)]

theorem findSome?_range_eq_some_iff {α : Type} {f : Nat → Option α} {n : Nat} {a : α} :
    (List.range n).findSome? f = some a ↔ ∃ i < n, f i = some a ∧ ∀ j < i, f j = none := by
  induction n with
  | zero => simp
  | succ n ih =>
    rw [List.range_succ, List.findSome?_append, Option.or_eq_some_iff, ih, List.findSome?_singleton]
    simp only [List.findSome?_eq_none_iff, List.mem_range]
    constructor
    · rintro (⟨i, hi, h⟩ | ⟨hnone, h⟩)
      · exact ⟨i, by omega, h⟩
      · exact ⟨n, Nat.lt_succ_self n, h, hnone⟩
    · rintro ⟨i, hi, h, hnone⟩
      rcases Nat.lt_succ_iff_lt_or_eq.mp hi with hlt | rfl
      · exact .inl ⟨i, hlt, h, hnone⟩
      · exact .inr ⟨hnone, h⟩

theorem find?_eq_some_iff : p.find? text = some m ↔ ∃ i ≤ text.length,
    matchAt? p ((Cursor.ofText text).skip i) = some m ∧ ∀ j < i, matchAt? p ((Cursor.ofText text).skip j) = none := by
  simp only [find?_eq, findSome?_range_eq_some_iff, Nat.lt_succ_iff]

/-- What the match that begins here captures, as text. -/
def heard (p : Pattern) (c : Cursor) : Option (Option (List Char)) :=
  (matchAt? p c).map fun m => m.captured.map Span.chars

theorem heard_eq_none_iff {c : Cursor} : heard p c = none ↔ matchAt? p c = none := Option.map_eq_none_iff

theorem map_captured? (p : Pattern) (text : List Char) : (p.captured? text).map Span.chars =
    ((List.range (text.length + 1)).findSome? fun i => heard p ((Cursor.ofText text).skip i)).join := by
  have hmap : (fun i => heard p ((Cursor.ofText text).skip i)) =
      Option.map (fun m : Match => m.captured.map Span.chars) ∘ fun i => matchAt? p ((Cursor.ofText text).skip i) := rfl
  rw [captured?, hmap, ← List.map_findSome?, ← find?_eq]
  cases p.find? text <;> rfl

theorem start_of_matchAt? {c : Cursor} (h : matchAt? p c = some m) : m.whole.start = c.position := by
  obtain ⟨n, -, hwhole⟩ := exists_reads_of_matchAt? h
  rw [hwhole]

/-- A match that is found is the one at the place where it begins. -/
theorem mem_findAll (h : m ∈ p.findAll text) :
    m.whole.start ≤ text.length ∧ matchAt? p ((Cursor.ofText text).skip m.whole.start) = some m := by
  obtain ⟨i, -, hi, hmatch⟩ := exists_of_mem_search (.ofText text) h
  have hstart : m.whole.start = i := (start_of_matchAt? hmatch).trans (Cursor.position_at hi)
  exact ⟨hstart ▸ hi, hstart ▸ hmatch⟩

/-- One match begins after another and not before it ends. -/
def Match.IsBefore (m n : Match) : Prop := m.whole.start < n.whole.start ∧ m.whole.stop ≤ n.whole.start

theorem pairwise_search (skip : Nat) (c : Cursor) :
    (search p skip c.position c.before c.rest).Pairwise Match.IsBefore := by
  obtain ⟨position, before, rest⟩ := c
  induction rest generalizing skip position before with
  | nil =>
    simp only [search]
    split <;> simp
  | cons x rest ih =>
    simp only [search]
    split
    · exact ih _ (position + 1) (some x)
    · split
      · rename_i m hmatch
        refine List.pairwise_cons.mpr ⟨fun n hn => ?_, ih _ (position + 1) (some x)⟩
        obtain ⟨i, hskip, hi, hlater⟩ := exists_of_mem_search ⟨position + 1, some x, rest⟩ hn
        have hm : m.whole.start = position := start_of_matchAt? hmatch
        have hn : n.whole.start = position + 1 + i := (start_of_matchAt? hlater).trans (Cursor.position_skip hi)
        constructor
        · omega
        · rw [Span.stop]
          omega
      · exact ih _ (position + 1) (some x)

theorem pairwise_findAll (p : Pattern) (text : List Char) : (p.findAll text).Pairwise Match.IsBefore :=
  pairwise_search 0 (.ofText text)

/-- A match is a reading of the text from the place where it begins. -/
theorem reads_of_mem (h : m ∈ p.findAll text) :
    Reads p ((Cursor.ofText text).skip m.whole.start) m.whole.chars.length m.captured ∧ m.whole.stop ≤ text.length := by
  obtain ⟨hle, hmatch⟩ := mem_findAll h
  obtain ⟨n, hreads, hwhole⟩ := exists_reads_of_matchAt? hmatch
  have hn := hreads.le
  have hlength : m.whole.chars.length = n := by rw [hwhole, List.length_take, Nat.min_eq_left hn]
  rw [Cursor.rest_at, List.length_drop] at hn
  rw [Span.stop, hlength]
  exact ⟨hreads, by omega⟩

/-- What a match captures is a stretch of the text within the match. -/
theorem captured_of_mem (h : m ∈ p.findAll text) (hs : m.captured = some s) :
    m.whole.start ≤ s.start ∧ s.stop ≤ m.whole.stop ∧ s.chars = (text.drop s.start).take s.chars.length := by
  obtain ⟨hreads, hstop⟩ := reads_of_mem h
  obtain ⟨i, k, hik, rfl⟩ := hreads.captured_within hs
  rw [Span.stop] at hstop
  rw [Cursor.rest_at, Cursor.position_at (by omega), List.drop_drop, Span.stop, Span.stop]
  have hlength : ((text.drop (m.whole.start + i)).take k).length = k := by
    rw [List.length_take, List.length_drop]
    omega
  exact ⟨Nat.le_add_right .., by simp only [hlength]; omega, by simp only [hlength]⟩

end CodeAtlas.Text.Pattern
