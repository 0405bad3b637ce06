import CodeAtlas.Text.Pattern
import Mathlib.Data.List.Basic

/-! What patterns read.

`Pattern.Reads` tells which stretches a pattern can cover from a place on and what it
captures there, without any preference among them. There is a match exactly if there is a
reading, and the match is one of them (`Pattern.exists_matchAt?`,
`Pattern.exists_reads_of_matchAt?`). So what all readings of a pattern have in common holds
of its matches: how much they cover, where the capture lies (`Pattern.Reads.captured_within`),
and which characters they go over (`Pattern.Reads.all_ok`). -/
namespace CodeAtlas.Text

/-! ### Places -/

namespace Cursor

/-- The start of a text. -/
def ofText (text : List Char) : Cursor := ⟨0, none, text⟩

/-- The place some characters on; at the end one stays. -/
def skip (c : Cursor) : Nat → Cursor
  | 0 => c
  | n + 1 =>
    match c.rest with
    | [] => c
    | x :: rest => (c.advance x rest).skip n

variable {c : Cursor} {m n : Nat} {x : Char} {rest : List Char}

@[simp] theorem skip_zero (c : Cursor) : c.skip 0 = c := rfl

theorem skip_of_rest_nil (h : c.rest = []) (n : Nat) : c.skip n = c := by
  cases n with
  | zero => rfl
  | succ n => rw [skip, h]

theorem skip_succ (h : c.rest = x :: rest) (n : Nat) : c.skip (n + 1) = (c.advance x rest).skip n := by
  rw [skip, h]

theorem skip_one (h : c.rest = x :: rest) : c.skip 1 = c.advance x rest := skip_succ h 0

@[simp] theorem rest_skip (c : Cursor) (n : Nat) : (c.skip n).rest = c.rest.drop n := by
  induction n generalizing c with
  | zero => rfl
  | succ n ih =>
    cases h : c.rest with
    | nil => rw [skip_of_rest_nil h, h, List.drop_nil]
    | cons x rest => rw [skip_succ h, ih]; rfl

theorem position_skip (h : n ≤ c.rest.length) : (c.skip n).position = c.position + n := by
  induction n generalizing c with
  | zero => rfl
  | succ n ih =>
    cases hrest : c.rest with
    | nil => rw [hrest] at h; cases h
    | cons x rest =>
      rw [hrest] at h
      rw [skip_succ hrest, ih (Nat.le_of_succ_le_succ h)]
      show c.position + 1 + n = _
      omega

theorem skip_skip (c : Cursor) (m n : Nat) : (c.skip m).skip n = c.skip (m + n) := by
  induction m generalizing c with
  | zero => rw [skip_zero, Nat.zero_add]
  | succ m ih =>
    cases h : c.rest with
    | nil => simp only [skip_of_rest_nil h]
    | cons x rest => rw [skip_succ h, ih, Nat.add_right_comm, skip_succ h]

theorem spanTo_skip (h : n ≤ c.rest.length) : c.spanTo (c.skip n) = ⟨c.position, c.rest.take n⟩ := by
  rw [spanTo, position_skip h, Nat.add_sub_cancel_left]

theorem rest_at (text : List Char) (i : Nat) : ((ofText text).skip i).rest = text.drop i := rest_skip _ i

theorem position_at {text : List Char} {i : Nat} (h : i ≤ text.length) : ((ofText text).skip i).position = i := by
  rw [position_skip h]
  exact Nat.zero_add i

end Cursor

/-! ### Readings -/

namespace Pattern

variable {α : Type} {p a b : Pattern} {c : Cursor} {n : Nat} {captured kept : Option Span} {ok : Char → Bool}

/-- The pattern can read the next `n` characters, and this is what it captures. -/
def Reads : Pattern → Cursor → Nat → Option Span → Prop
  | here, _, n, captured => n = 0 ∧ captured = none
  | one ok, c, n, captured => (∃ x rest, c.rest = x :: rest ∧ ok x = true) ∧ n = 1 ∧ captured = none
  | run ok, c, n, captured => n ≤ c.rest.length ∧ (∀ x ∈ c.rest.take n, ok x = true) ∧ captured = none
  | lazyRun ok, c, n, captured => n ≤ c.rest.length ∧ (∀ x ∈ c.rest.take n, ok x = true) ∧ captured = none
  | seq a b, c, n, captured => ∃ i j first second,
      Reads a c i first ∧ Reads b (c.skip i) j second ∧ n = i + j ∧ captured = second.or first
  | alt a b, c, n, captured => Reads a c n captured ∨ Reads b c n captured
  | capture a, c, n, captured => captured = some (c.spanTo (c.skip n)) ∧ ∃ inner, Reads a c n inner
  | boundary, c, n, captured => c.atBoundary = true ∧ n = 0 ∧ captured = none
  | lineStart, c, n, captured => c.atLineStart = true ∧ n = 0 ∧ captured = none

theorem Reads.le (h : Reads p c n captured) : n ≤ c.rest.length := by
  induction p generalizing c n captured with
  | here | boundary | lineStart => simp only [Reads] at h; omega
  | one ok =>
    obtain ⟨⟨x, rest, hrest, -⟩, rfl, -⟩ := h
    simp [hrest]
  | run ok | lazyRun ok => exact h.1
  | seq a b iha ihb =>
    obtain ⟨i, j, first, second, ha, hb, rfl, -⟩ := h
    have hi := iha ha
    have hj := ihb hb
    rw [Cursor.rest_skip, List.length_drop] at hj
    omega
  | alt a b iha ihb => exact h.elim iha ihb
  | capture a ih =>
    obtain ⟨-, inner, ha⟩ := h
    exact ih ha

/-- What is captured lies within what is read. -/
theorem Reads.captured_within (h : Reads p c n captured) {s : Span} (hs : captured = some s) :
    ∃ i m, i + m ≤ n ∧ s = ⟨c.position + i, (c.rest.drop i).take m⟩ := by
  induction p generalizing c n captured with
  | here | one ok | run ok | lazyRun ok | boundary | lineStart =>
    obtain rfl : captured = none := by simp only [Reads] at h; tauto
    cases hs
  | seq a b iha ihb =>
    obtain ⟨i, j, first, second, ha, hb, rfl, rfl⟩ := h
    cases second with
    | none =>
      obtain ⟨i', m, hle, heq⟩ := iha ha hs
      exact ⟨i', m, by omega, heq⟩
    | some second =>
      obtain ⟨i', m, hle, rfl⟩ := ihb hb hs
      refine ⟨i + i', m, by omega, ?_⟩
      rw [Cursor.position_skip ha.le, Cursor.rest_skip, List.drop_drop, Nat.add_assoc]
  | alt a b iha ihb => exact h.elim (iha · hs) (ihb · hs)
  | capture a ih =>
    obtain ⟨rfl, inner, ha⟩ := h
    obtain rfl := Option.some.inj hs
    exact ⟨0, n, by omega, Cursor.spanTo_skip ha.le⟩

/-! ### One step of an attempt -/

theorem greedy_cons (ok : Char → Bool) (go : Nat → Option Char → List Char → Option α) (position : Nat)
    (before : Option Char) (x : Char) (rest : List Char) : greedy ok go position before (x :: rest) =
      if ok x then (greedy ok go (position + 1) (some x) rest).or (go position before (x :: rest))
      else go position before (x :: rest) := by
  rw [greedy]
  split
  · cases greedy ok go (position + 1) (some x) rest <;> rfl
  · rfl

theorem modest_cons (ok : Char → Bool) (go : Nat → Option Char → List Char → Option α) (position : Nat)
    (before : Option Char) (x : Char) (rest : List Char) : modest ok go position before (x :: rest) =
      (go position before (x :: rest)).or (if ok x then modest ok go (position + 1) (some x) rest else none) := by
  rw [modest]
  cases go position before (x :: rest) <;> rfl

theorem attempt_alt (go : Cursor → Option Span → Option α) :
    attempt (alt a b) c kept go = (attempt a c kept go).or (attempt b c kept go) := by
  rw [attempt]
  cases attempt a c kept go <;> rfl

/-! ### Matches are readings -/

/-- A run goes over characters of its class, as many as it is. -/
theorem exists_of_greedy {go : Nat → Option Char → List Char → Option α} {r : α} (c : Cursor)
    (h : greedy ok go c.position c.before c.rest = some r) :
    ∃ n ≤ c.rest.length, (∀ x ∈ c.rest.take n, ok x = true) ∧
      go (c.skip n).position (c.skip n).before (c.skip n).rest = some r := by
  obtain ⟨position, before, rest⟩ := c
  induction rest generalizing position before with
  | nil => exact ⟨0, Nat.le_refl 0, by simp, h⟩
  | cons x rest ih =>
    have hstop (h : go position before (x :: rest) = some r) : ∃ n ≤ (x :: rest).length,
        (∀ y ∈ (x :: rest).take n, ok y = true) ∧
          let d := (⟨position, before, x :: rest⟩ : Cursor).skip n
          go d.position d.before d.rest = some r := ⟨0, Nat.zero_le _, by simp, h⟩
    rw [greedy] at h
    split at h
    · rename_i hx
      split at h
      · rename_i hmore
        obtain ⟨n, hle, hok, hgo⟩ := ih (position + 1) (some x) (hmore.trans h)
        refine ⟨n + 1, Nat.succ_le_succ hle, ?_, hgo⟩
        simpa [hx] using hok
      · exact hstop h
    · exact hstop h

theorem exists_of_modest {go : Nat → Option Char → List Char → Option α} {r : α} (c : Cursor)
    (h : modest ok go c.position c.before c.rest = some r) :
    ∃ n ≤ c.rest.length, (∀ x ∈ c.rest.take n, ok x = true) ∧
      go (c.skip n).position (c.skip n).before (c.skip n).rest = some r := by
  obtain ⟨position, before, rest⟩ := c
  induction rest generalizing position before with
  | nil => exact ⟨0, Nat.le_refl 0, by simp, h⟩
  | cons x rest ih =>
    rw [modest] at h
    split at h
    · rename_i hstop
      exact ⟨0, Nat.zero_le _, by simp, hstop.trans h⟩
    · split at h
      · rename_i hx
        obtain ⟨n, hle, hok, hgo⟩ := ih (position + 1) (some x) h
        refine ⟨n + 1, Nat.succ_le_succ hle, ?_, hgo⟩
        simpa [hx] using hok
      · cases h

theorem reads_of_attempt {go : Cursor → Option Span → Option α} {r : α} (h : attempt p c kept go = some r) :
    ∃ n captured, Reads p c n captured ∧ go (c.skip n) (captured.or kept) = some r := by
  induction p generalizing c kept go with
  | here => exact ⟨0, none, ⟨rfl, rfl⟩, h⟩
  | one ok =>
    rw [attempt] at h
    split at h
    · cases h
    · rename_i x rest hrest
      split at h
      · rename_i hx
        exact ⟨1, none, ⟨⟨x, rest, hrest, hx⟩, rfl, rfl⟩, by rwa [Cursor.skip_one hrest]⟩
      · cases h
  | run ok =>
    obtain ⟨n, hle, hok, hgo⟩ := exists_of_greedy c h
    exact ⟨n, none, ⟨hle, hok, rfl⟩, hgo⟩
  | lazyRun ok =>
    obtain ⟨n, hle, hok, hgo⟩ := exists_of_modest c h
    exact ⟨n, none, ⟨hle, hok, rfl⟩, hgo⟩
  | seq a b iha ihb =>
    obtain ⟨i, first, ha, h⟩ := iha h
    obtain ⟨j, second, hb, h⟩ := ihb h
    exact ⟨i + j, second.or first, ⟨i, j, first, second, ha, hb, rfl, rfl⟩, by rwa [← Cursor.skip_skip, Option.or_assoc]⟩
  | alt a b iha ihb =>
    rw [attempt] at h
    split at h
    · rename_i hfirst
      obtain ⟨n, captured, ha, hgo⟩ := iha (hfirst.trans h)
      exact ⟨n, captured, .inl ha, hgo⟩
    · obtain ⟨n, captured, hb, hgo⟩ := ihb h
      exact ⟨n, captured, .inr hb, hgo⟩
  | capture a ih =>
    obtain ⟨n, inner, ha, hgo⟩ := ih h
    exact ⟨n, some (c.spanTo (c.skip n)), ⟨rfl, inner, ha⟩, hgo⟩
  | boundary =>
    rw [attempt] at h
    split at h
    · rename_i hboundary
      exact ⟨0, none, ⟨hboundary, rfl, rfl⟩, h⟩
    · cases h
  | lineStart =>
    rw [attempt] at h
    split at h
    · rename_i hstart
      exact ⟨0, none, ⟨hstart, rfl, rfl⟩, h⟩
    · cases h

theorem exists_reads_of_matchAt? {m : Match} (h : matchAt? p c = some m) :
    ∃ n, Reads p c n m.captured ∧ m.whole = ⟨c.position, c.rest.take n⟩ := by
  obtain ⟨n, captured, hreads, hm⟩ := reads_of_attempt h
  obtain rfl := Option.some.inj hm
  exact ⟨n, by rwa [Option.or_none], Cursor.spanTo_skip hreads.le⟩

/-! ### Building readings -/

theorem Reads.followed {m : Nat} (ha : Reads a c m none) (hb : Reads b (c.skip m) n captured) :
    Reads (a ++ b) c (m + n) captured :=
  ⟨m, n, none, captured, ha, hb, rfl, Option.or_none.symm⟩

theorem reads_here (c : Cursor) : Reads here c 0 none := ⟨rfl, rfl⟩

theorem reads_boundary (h : c.atBoundary = true) : Reads boundary c 0 none := ⟨h, rfl, rfl⟩

theorem reads_one {x : Char} {rest : List Char} (h : c.rest = x :: rest) (hx : ok x = true) : Reads (one ok) c 1 none :=
  ⟨⟨x, rest, h, hx⟩, rfl, rfl⟩

theorem reads_run {cs rest : List Char} (h : c.rest = cs ++ rest) (hcs : ∀ x ∈ cs, ok x = true) :
    Reads (run ok) c cs.length none := by
  refine ⟨?_, ?_, rfl⟩
  · rw [h, List.length_append]
    exact Nat.le_add_right ..
  · rwa [h, List.take_left]

theorem reads_some1 {cs rest : List Char} (h : c.rest = cs ++ rest) (hne : cs ≠ []) (hcs : ∀ x ∈ cs, ok x = true) :
    Reads (some1 ok) c cs.length none := by
  obtain ⟨x, more, rfl⟩ := List.exists_cons_of_ne_nil hne
  obtain ⟨hx, hmore⟩ := List.forall_mem_cons.mp hcs
  have hnext : (c.skip 1).rest = more ++ rest := by rw [Cursor.rest_skip, h]; rfl
  rw [List.length_cons, Nat.add_comm]
  exact (reads_one h hx).followed (reads_run hnext hmore)

/-! ### Readings are matches -/

/-- A run can end wherever what follows succeeds. -/
theorem runs_isSome (go : Cursor → Option α) (h : Reads (run ok) c n captured) (hgo : (go (c.skip n)).isSome = true) :
    (greedy ok (fun p b r => go ⟨p, b, r⟩) c.position c.before c.rest).isSome = true ∧
      (modest ok (fun p b r => go ⟨p, b, r⟩) c.position c.before c.rest).isSome = true := by
  obtain ⟨hle, hall, -⟩ := h
  obtain ⟨position, before, rest⟩ := c
  induction rest generalizing position before n with
  | nil =>
    rw [Cursor.skip_of_rest_nil rfl] at hgo
    exact ⟨hgo, hgo⟩
  | cons x rest ih =>
    rw [greedy_cons, modest_cons]
    cases n with
    | zero =>
      rw [Cursor.skip_zero] at hgo
      refine ⟨?_, by simp [hgo]⟩
      split
      · simp [hgo]
      · exact hgo
    | succ n =>
      rw [List.take_succ_cons, List.forall_mem_cons] at hall
      obtain ⟨hgreedy, hmodest⟩ := ih (position + 1) (some x) hgo (Nat.le_of_succ_le_succ hle) hall.2
      simp [hall.1, hgreedy, hmodest]

theorem attempt_isSome {go : Cursor → Option Span → Option α} (h : Reads p c n captured)
    (hgo : ∀ kept, (go (c.skip n) kept).isSome = true) : (attempt p c kept go).isSome = true := by
  induction p generalizing c n captured kept go with
  | here =>
    obtain ⟨rfl, -⟩ := h
    exact hgo kept
  | one ok =>
    obtain ⟨⟨x, rest, hrest, hx⟩, rfl, -⟩ := h
    rw [Cursor.skip_one hrest] at hgo
    simpa only [attempt, hrest, if_pos hx] using hgo kept
  | run ok => exact (runs_isSome (go · kept) h (hgo kept)).1
  | lazyRun ok => exact (runs_isSome (go · kept) h (hgo kept)).2
  | seq a b iha ihb =>
    obtain ⟨i, j, first, second, ha, hb, rfl, -⟩ := h
    exact iha ha fun kept => ihb hb fun kept => by rw [Cursor.skip_skip]; exact hgo kept
  | alt a b iha ihb =>
    rw [attempt_alt, Option.isSome_or, Bool.or_eq_true]
    exact h.imp (iha · hgo) (ihb · hgo)
  | capture a ih =>
    obtain ⟨-, inner, ha⟩ := h
    exact ih ha fun _ => hgo _
  | boundary | lineStart =>
    obtain ⟨hb, rfl, -⟩ := h
    rw [attempt, if_pos hb]
    exact hgo kept

theorem exists_matchAt? (h : Reads p c n captured) : ∃ m, matchAt? p c = some m := by
  rw [← Option.isSome_iff_exists, matchAt?]
  exact attempt_isSome h fun _ => rfl

/-- Where nothing can fail afterwards, a run is as long as it can be. -/
theorem attempt_run {go : Cursor → Option Span → Option α} (hgo : ∀ d kept, (go d kept).isSome = true) :
    attempt (run ok) c kept go = go (c.skip (c.rest.takeWhile ok).length) kept := by
  rw [attempt]
  obtain ⟨position, before, rest⟩ := c
  induction rest generalizing position before with
  | nil => rfl
  | cons x rest ih =>
    rw [greedy_cons, List.takeWhile_cons]
    split
    · obtain ⟨r, hr⟩ := Option.isSome_iff_exists.mp (hgo ((⟨position + 1, some x, rest⟩ : Cursor).skip _) kept)
      rw [ih, hr, Option.some_or, ← hr]
      rfl
    · rfl

/-! ### The parts of a pattern -/

/-- All characters that the pattern can read are in a class. -/
def Within (ok : Char → Bool) : Pattern → Prop
  | here | boundary | lineStart => True
  | one f | run f | lazyRun f => ∀ x, f x = true → ok x = true
  | seq a b | alt a b => Within ok a ∧ Within ok b
  | capture a => Within ok a

theorem Reads.all_ok (h : Reads p c n captured) (hp : Within ok p) : ∀ x ∈ c.rest.take n, ok x = true := by
  induction p generalizing c n captured with
  | here | boundary | lineStart =>
    obtain rfl : n = 0 := by simp only [Reads] at h; tauto
    simp
  | one f =>
    obtain ⟨⟨x, rest, hrest, hx⟩, rfl, -⟩ := h
    simpa [hrest] using hp x hx
  | run f | lazyRun f => exact fun x hx => hp x (h.2.1 x hx)
  | seq a b iha ihb =>
    obtain ⟨i, j, first, second, ha, hb, rfl, -⟩ := h
    have hsecond := ihb hb hp.2
    rw [Cursor.rest_skip] at hsecond
    intro x hx
    rw [List.take_add, List.mem_append] at hx
    exact hx.elim (iha ha hp.1 x) (hsecond x)
  | alt a b iha ihb => exact h.elim (iha · hp.1) (ihb · hp.2)
  | capture a ih =>
    obtain ⟨-, inner, ha⟩ := h
    exact ih ha hp

theorem within_exactly {text : String} (h : text.toList.all ok = true) : Within ok (exactly text) := by
  unfold exactly
  generalize text.toList = cs at h ⊢
  induction cs with
  | nil => trivial
  | cons c rest ih =>
    rw [List.all_cons, Bool.and_eq_true] at h
    exact ⟨fun x hx => beq_iff_eq.mp hx ▸ h.1, ih h.2⟩

/-- The pattern captures nothing. -/
def isSilent : Pattern → Bool
  | capture _ => false
  | seq a b | alt a b => a.isSilent && b.isSilent
  | _ => true

theorem Reads.of_silent (h : Reads p c n captured) (hp : p.isSilent = true) : captured = none := by
  induction p generalizing c n captured with
  | here | one ok | run ok | lazyRun ok | boundary | lineStart => simp only [Reads] at h; tauto
  | seq a b iha ihb =>
    obtain ⟨ha, hb⟩ := Bool.and_eq_true_iff.mp hp
    obtain ⟨i, j, first, second, hfirst, hsecond, -, rfl⟩ := h
    rw [iha hfirst ha, ihb hsecond hb]
    rfl
  | alt a b iha ihb =>
    obtain ⟨ha, hb⟩ := Bool.and_eq_true_iff.mp hp
    exact h.elim (iha · ha) (ihb · hb)
  | capture a => cases hp

/-- The first character that the pattern reads is in a class, and there is one. -/
def BeginsWithin (ok : Char → Bool) : Pattern → Prop
  | one f => ∀ x, f x = true → ok x = true
  | seq a b => BeginsWithin ok a ∨ a = boundary ∧ BeginsWithin ok b
  | alt a b => BeginsWithin ok a ∧ BeginsWithin ok b
  | capture a => BeginsWithin ok a
  | _ => False

theorem Reads.begins (h : Reads p c n captured) (hp : BeginsWithin ok p) :
    ∃ x rest, c.rest = x :: rest ∧ ok x = true := by
  induction p generalizing c n captured with
  | here | run | lazyRun | boundary | lineStart => cases hp
  | one f =>
    obtain ⟨⟨x, rest, hrest, hx⟩, -⟩ := h
    exact ⟨x, rest, hrest, hp x hx⟩
  | seq a b iha ihb =>
    obtain ⟨i, j, first, second, ha, hb, -⟩ := h
    rcases hp with hp | ⟨rfl, hp⟩
    · exact iha ha hp
    · obtain ⟨-, rfl, -⟩ := ha
      exact ihb hb hp
  | alt a b iha ihb => exact h.elim (iha · hp.1) (ihb · hp.2)
  | capture a ih =>
    obtain ⟨-, inner, ha⟩ := h
    exact ih ha hp

/-- What a pattern captures before another one that captures nothing. -/
theorem Reads.left (h : Reads (a ++ b) c n captured) (hb : b.isSilent = true) : ∃ i, Reads a c i captured := by
  obtain ⟨i, j, first, second, hfirst, hsecond, -, rfl⟩ := h
  rw [hsecond.of_silent hb, Option.none_or]
  exact ⟨i, hfirst⟩

theorem Reads.of_capture (h : Reads (capture a) c n captured) :
    captured = some ⟨c.position, c.rest.take n⟩ ∧ ∃ inner, Reads a c n inner := by
  obtain ⟨rfl, inner, ha⟩ := h
  exact ⟨by rw [Cursor.spanTo_skip ha.le], inner, ha⟩

/-- All characters that the pattern can capture are in a class. -/
def CapturesWithin (ok : Char → Bool) : Pattern → Prop
  | seq a b | alt a b => CapturesWithin ok a ∧ CapturesWithin ok b
  | capture a => Within ok a
  | _ => True

theorem capturesWithin_of_silent (h : p.isSilent = true) : CapturesWithin ok p := by
  induction p with
  | here | one | run | lazyRun | boundary | lineStart => trivial
  | seq a b iha ihb | alt a b iha ihb =>
    obtain ⟨ha, hb⟩ := Bool.and_eq_true_iff.mp h
    exact ⟨iha ha, ihb hb⟩
  | capture a => cases h

theorem Reads.captured_ok (h : Reads p c n captured) (hp : CapturesWithin ok p) {s : Span} (hs : captured = some s) :
    ∀ x ∈ s.chars, ok x = true := by
  induction p generalizing c n captured with
  | here | one ok | run ok | lazyRun ok | boundary | lineStart =>
    rw [h.of_silent rfl] at hs
    cases hs
  | seq a b iha ihb =>
    obtain ⟨i, j, first, second, ha, hb, rfl, rfl⟩ := h
    cases second with
    | none => exact iha ha hp.1 hs
    | some second => exact ihb hb hp.2 hs
  | alt a b iha ihb => exact h.elim (iha · hp.1 hs) (ihb · hp.2 hs)
  | capture a ih =>
    obtain ⟨rfl, inner, ha⟩ := h.of_capture
    obtain rfl := Option.some.inj hs
    exact ha.all_ok hp

theorem Reads.of_exactly {text : String} (h : Reads (exactly text) c n captured) :
    n = text.toList.length ∧ c.rest.take n = text.toList ∧ captured = none := by
  unfold exactly at h
  generalize text.toList = cs at h ⊢
  induction cs generalizing c n captured with
  | nil =>
    obtain ⟨rfl, rfl⟩ := h
    exact ⟨rfl, rfl, rfl⟩
  | cons x more ih =>
    obtain ⟨i, j, first, second, ⟨⟨y, rest, hrest, hy⟩, rfl, rfl⟩, hmore, rfl, rfl⟩ := h
    obtain ⟨rfl, htake, rfl⟩ := ih hmore
    rw [Cursor.rest_skip, hrest] at htake
    refine ⟨Nat.add_comm .., ?_, rfl⟩
    rw [hrest, Nat.add_comm, List.take_succ_cons, beq_iff_eq.mp hy]
    exact congrArg _ htake

theorem Reads.of_some1 (h : Reads (some1 ok) c n captured) :
    0 < n ∧ (∀ x ∈ c.rest.take n, ok x = true) ∧ captured = none := by
  have hall : ∀ x ∈ c.rest.take n, ok x = true := h.all_ok ⟨fun _ => id, fun _ => id⟩
  obtain ⟨i, j, first, second, ⟨-, rfl, rfl⟩, ⟨-, -, rfl⟩, rfl, rfl⟩ := h
  exact ⟨by omega, hall, rfl⟩

end Pattern

/-! ### Stretches of a text -/

/-- All characters of a text from one place up to another are in a class. -/
def Stretch (text : List Char) (i j : Nat) (ok : Char → Bool) : Prop :=
  ∀ k, i ≤ k → k < j → ∀ x, text[k]? = some x → ok x = true

section Stretches

variable {text : List Char} {i n : Nat} {ok : Char → Bool} {captured : Option Span}

theorem getElem?_rest {k : Nat} : ((Cursor.ofText text).skip i).rest[k]? = text[i + k]? := by
  rw [Cursor.rest_at, List.getElem?_drop]

theorem stretch_of_take (h : ∀ x ∈ ((Cursor.ofText text).skip i).rest.take n, ok x = true) :
    Stretch text i (i + n) ok := by
  intro k hik hk x hx
  refine h x (List.mem_of_getElem? (i := k - i) ?_)
  rw [List.getElem?_take_of_lt (by omega), getElem?_rest, Nat.add_sub_cancel' hik, hx]

theorem getElem?_of_take {cs : List Char} (h : ((Cursor.ofText text).skip i).rest.take cs.length = cs) {k : Nat}
    (hk : k < cs.length) : text[i + k]? = cs[k]? := by
  rw [← getElem?_rest, ← List.getElem?_take_of_lt hk, h]

namespace Pattern

theorem Reads.of_some1_at (h : Reads (some1 ok) ((Cursor.ofText text).skip i) n captured) :
    0 < n ∧ i + n ≤ text.length ∧ Stretch text i (i + n) ok ∧ captured = none := by
  obtain ⟨hpos, hall, hcaptured⟩ := h.of_some1
  have hle := h.le
  rw [Cursor.rest_at, List.length_drop] at hle
  exact ⟨hpos, by omega, stretch_of_take hall, hcaptured⟩

/-- What a run of at least one character captures. -/
theorem Reads.of_captured_run (h : Reads (capture (some1 ok)) ((Cursor.ofText text).skip i) n captured) :
    ∃ s, captured = some s ∧ s.start = i ∧ s.stop = i + n ∧ 0 < n ∧ i + n ≤ text.length ∧ Stretch text i (i + n) ok := by
  obtain ⟨rfl, inner, hrun⟩ := h.of_capture
  obtain ⟨hpos, hle, hall, -⟩ := hrun.of_some1_at
  refine ⟨_, rfl, Cursor.position_at (by omega), ?_, hpos, hle, hall⟩
  rw [Span.stop, List.length_take, Nat.min_eq_left hrun.le, Cursor.position_at (by omega)]

end Pattern

end Stretches

end CodeAtlas.Text
