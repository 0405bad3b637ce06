import CodeAtlas.Proofs.Text.Search

/-! What patterns see of a text.

`Pattern.Reaches` tells how far a pattern can come from a place, whether or not it then
matches. Where all of that is before some point, what stands after the point changes
nothing: the pattern matches there exactly as it does in another text with the same
characters up to the point (`Pattern.heard_congr`). A fence is such a point for all
patterns that never read the two characters of the fence one after the other
(`Pattern.Fence.of_keepsOff`). -/
namespace CodeAtlas.Text

namespace Cursor

variable {c d : Cursor} {k m n : Nat} {x : Char} {rest : List Char}

/-- The same character before two places and the same ones after, up to so many. -/
structure Agree (k : Nat) (c d : Cursor) : Prop where
  before : c.before = d.before
  rest : c.rest.take k = d.rest.take k

namespace Agree

theorem mono (h : Agree k c d) (hm : m ≤ k) : Agree m c d where
  before := h.before
  rest := by
    have htake := congrArg (List.take m) h.rest
    rwa [List.take_take, List.take_take, Nat.min_eq_left hm] at htake

theorem rest_nil (h : Agree k c d) (hk : 0 < k) (hc : c.rest = []) : d.rest = [] := by
  have htake := h.rest
  rw [hc, List.take_nil] at htake
  exact (List.take_eq_nil_iff.mp htake.symm).resolve_left (Nat.ne_of_gt hk)

/-- The next characters are the same, and so are the places after them. -/
theorem rest_cons (h : Agree k c d) (hk : 0 < k) (hc : c.rest = x :: rest) :
    ∃ rest', d.rest = x :: rest' ∧ Agree (k - 1) (c.advance x rest) (d.advance x rest') := by
  obtain ⟨k, rfl⟩ := Nat.exists_eq_succ_of_ne_zero (Nat.ne_of_gt hk)
  have htake := h.rest
  rw [hc, List.take_succ_cons] at htake
  cases hd : d.rest with
  | nil => rw [hd, List.take_nil] at htake; cases htake
  | cons y rest' =>
    rw [hd, List.take_succ_cons] at htake
    obtain ⟨rfl, hsame⟩ := List.cons.inj htake
    exact ⟨rest', rfl, rfl, hsame⟩

theorem skip (h : Agree k c d) (hn : n ≤ k) : Agree (k - n) (c.skip n) (d.skip n) := by
  induction n generalizing c d k with
  | zero => exact h
  | succ n ih =>
    cases hc : c.rest with
    | nil =>
      rw [skip_of_rest_nil hc, skip_of_rest_nil (h.rest_nil (by omega) hc)]
      exact h.mono (Nat.sub_le ..)
    | cons x rest =>
      obtain ⟨rest', hd, hagree⟩ := h.rest_cons (by omega) hc
      rw [skip_succ hc, skip_succ hd, Nat.add_comm, Nat.sub_add_eq]
      exact ih hagree (by omega)

theorem atBoundary (h : Agree k c d) (hk : 0 < k) : c.atBoundary = d.atBoundary := by
  rw [Cursor.atBoundary, Cursor.atBoundary, h.before]
  cases hc : c.rest with
  | nil => rw [h.rest_nil hk hc]
  | cons x rest =>
    obtain ⟨rest', hd, -⟩ := h.rest_cons hk hc
    rw [hd]
    rfl

theorem atLineStart (h : Agree k c d) : c.atLineStart = d.atLineStart := by
  rw [Cursor.atLineStart, Cursor.atLineStart, h.before]

theorem chars_spanTo (h : Agree k c d) (hc : n ≤ c.rest.length) (hn : n < k) :
    (c.spanTo (c.skip n)).chars = (d.spanTo (d.skip n)).chars := by
  have htake := (h.mono (Nat.le_of_lt hn)).rest
  have hd : n ≤ d.rest.length := by
    have hlength := congrArg List.length htake
    rw [List.length_take, List.length_take] at hlength
    omega
  rw [spanTo_skip hc, spanTo_skip hd]
  exact htake

end Agree

end Cursor

namespace Pattern

open Cursor

variable {α β γ : Type} {p a b e : Pattern} {c d : Cursor} {k n : Nat} {ok : Char → Bool}
variable {captured kept kept' : Option Span}

/-! ### Reach -/

/-- Reading from a place on, the pattern can come so many characters far. -/
def Reaches : Pattern → Cursor → Nat → Prop
  | here, _, n | boundary, _, n | lineStart, _, n => n = 0
  | one ok, c, n => n = 0 ∨ Reads (one ok) c n none
  | run ok, c, n | lazyRun ok, c, n => Reads (run ok) c n none
  | seq a b, c, n => Reaches a c n ∨ ∃ i j first, Reads a c i first ∧ Reaches b (c.skip i) j ∧ n = i + j
  | alt a b, c, n => Reaches a c n ∨ Reaches b c n
  | capture a, c, n => Reaches a c n

theorem Reads.reaches (h : Reads p c n captured) : Reaches p c n := by
  induction p generalizing c n captured with
  | here => exact h.1
  | boundary | lineStart => exact h.2.1
  | one ok => exact .inr ⟨h.1, h.2.1, rfl⟩
  | run ok | lazyRun ok => exact ⟨h.1, h.2.1, rfl⟩
  | seq a b iha ihb =>
    obtain ⟨i, j, first, second, ha, hb, rfl, -⟩ := h
    exact .inr ⟨i, j, first, ha, ihb hb, rfl⟩
  | alt a b iha ihb => exact h.imp iha ihb
  | capture a ih =>
    obtain ⟨-, inner, ha⟩ := h
    exact ih ha

theorem Reaches.le (h : Reaches p c n) : n ≤ c.rest.length := by
  induction p generalizing c n with
  | here | boundary | lineStart =>
    obtain rfl : n = 0 := h
    exact Nat.zero_le _
  | one ok =>
    rcases h with rfl | h
    · exact Nat.zero_le _
    · exact h.le
  | run ok | lazyRun ok => exact Reads.le h
  | seq a b iha ihb =>
    rcases h with h | ⟨i, j, first, ha, hb, rfl⟩
    · exact iha h
    · have hi := ha.le
      have hj := ihb hb
      rw [rest_skip, List.length_drop] at hj
      omega
  | alt a b iha ihb => exact h.elim iha ihb
  | capture a ih => exact ih h

theorem reaches_zero (p : Pattern) (c : Cursor) : Reaches p c 0 := by
  induction p with
  | here | boundary | lineStart => rfl
  | one ok => exact .inl rfl
  | run ok | lazyRun ok => exact ⟨Nat.zero_le _, by simp, rfl⟩
  | seq a b iha => exact .inl iha
  | alt a b iha => exact .inl iha
  | capture a ih => exact ih

theorem Reaches.assoc (h : Reaches (a ++ b ++ e) c n) : Reaches (a ++ (b ++ e)) c n := by
  rcases h with (h | ⟨i, j, first, ha, hb, rfl⟩) | ⟨_, l, _, ⟨i, j, first, second, ha, hb, rfl, -⟩, he, rfl⟩
  · exact .inl h
  · exact .inr ⟨i, j, first, ha, .inl hb, rfl⟩
  · refine .inr ⟨i, j + l, first, ha, .inr ⟨j, l, second, hb, ?_, rfl⟩, Nat.add_assoc ..⟩
    rwa [skip_skip]

/-! ### Agreement -/

/-- A run ends in the same way at two places that agree as far as it can go. -/
theorem runs_congr {f : α → γ} {f' : β → γ} (go : Cursor → Option α) (go' : Cursor → Option β) (hagree : Agree k c d)
    (hreach : ∀ n, Reaches (run ok) c n → n < k)
    (hgo : ∀ n, Reads (run ok) c n none → (go (c.skip n)).map f = (go' (d.skip n)).map f') :
    (greedy ok (fun p b r => go ⟨p, b, r⟩) c.position c.before c.rest).map f =
        (greedy ok (fun p b r => go' ⟨p, b, r⟩) d.position d.before d.rest).map f' ∧
      (modest ok (fun p b r => go ⟨p, b, r⟩) c.position c.before c.rest).map f =
        (modest ok (fun p b r => go' ⟨p, b, r⟩) d.position d.before d.rest).map f' := by
  obtain ⟨position, before, rest⟩ := c
  have hpos : 0 < k := hreach 0 (reaches_zero ..)
  have hstop : (go ⟨position, before, rest⟩).map f = (go' d).map f' := hgo 0 (reaches_zero (run ok) _)
  induction rest generalizing position before d k with
  | nil =>
    have hd := hagree.rest_nil hpos rfl
    rw [show d = ⟨d.position, d.before, []⟩ from hd ▸ rfl] at hstop ⊢
    exact ⟨hstop, hstop⟩
  | cons x rest ih =>
    obtain ⟨rest', hd, hnext⟩ := hagree.rest_cons hpos rfl
    rw [hd, greedy_cons, greedy_cons, modest_cons, modest_cons]
    rw [show d = ⟨d.position, d.before, x :: rest'⟩ from hd ▸ rfl] at hstop
    by_cases hx : ok x = true
    · have hmore {n : Nat} (h : Reads (run ok) ⟨position + 1, some x, rest⟩ n none) :
          Reads (run ok) ⟨position, before, x :: rest⟩ (n + 1) none :=
        ⟨Nat.succ_le_succ h.1, by simpa [hx] using h.2.1, rfl⟩
      have hreach' (n : Nat) (h : Reads (run ok) ⟨position + 1, some x, rest⟩ n none) : n < k - 1 := by
        have := hreach (n + 1) (hmore h)
        omega
      have hgo' (n : Nat) (h : Reads (run ok) ⟨position + 1, some x, rest⟩ n none) :
          (go ((⟨position + 1, some x, rest⟩ : Cursor).skip n)).map f = (go' ((d.advance x rest').skip n)).map f' := by
        have := hgo (n + 1) (hmore h)
        rwa [skip_succ hd] at this
      obtain ⟨hgreedy, hmodest⟩ := ih (position + 1) (some x) hnext hreach' hgo' (hreach' 0 (reaches_zero (run ok) _))
        (hgo' 0 (reaches_zero (run ok) _))
      simp only [if_pos hx, Option.map_or, hstop]
      exact ⟨congrArg (Option.or · _) hgreedy, congrArg (Option.or _) hmodest⟩
    · simp only [if_neg hx, Option.or_none]
      exact ⟨hstop, hstop⟩

/-- A pattern does the same at two places that agree as far as it can come, if what
follows does the same after each reading. -/
theorem attempt_congr {f : α → γ} {f' : β → γ} {go : Cursor → Option Span → Option α}
    {go' : Cursor → Option Span → Option β} (hagree : Agree k c d) (hreach : ∀ n, Reaches p c n → n < k)
    (hkept : kept.map Span.chars = kept'.map Span.chars)
    (hgo : ∀ n captured s s', Reads p c n captured → s.map Span.chars = s'.map Span.chars →
      (go (c.skip n) s).map f = (go' (d.skip n) s').map f') :
    (attempt p c kept go).map f = (attempt p d kept' go').map f' := by
  induction p generalizing c d k kept kept' go go' with
  | here => exact hgo 0 none _ _ ⟨rfl, rfl⟩ hkept
  | one ok =>
    have hpos : 0 < k := hreach 0 (reaches_zero ..)
    rw [attempt, attempt]
    cases hc : c.rest with
    | nil => rw [hagree.rest_nil hpos hc]; rfl
    | cons x rest =>
      obtain ⟨rest', hd, -⟩ := hagree.rest_cons hpos hc
      rw [hd]
      by_cases hx : ok x = true
      · have hnext := hgo 1 none _ _ ⟨⟨x, rest, hc, hx⟩, rfl, rfl⟩ hkept
        rw [skip_one hc, skip_one hd] at hnext
        simpa only [if_pos hx] using hnext
      · simp only [if_neg hx, Option.map_none]
  | run ok =>
    exact (runs_congr (go · kept) (go' · kept') hagree hreach fun n h => hgo n none _ _ h hkept).1
  | lazyRun ok =>
    exact (runs_congr (go · kept) (go' · kept') hagree hreach fun n h => hgo n none _ _ h hkept).2
  | seq a b iha ihb =>
    rw [attempt, attempt]
    refine iha hagree (fun n h => hreach n (.inl h)) hkept fun i first s s' ha hs => ?_
    have hi := hreach i (.inl ha.reaches)
    refine ihb (hagree.skip (Nat.le_of_lt hi)) (fun j hb => ?_) hs fun j second s s' hb hs => ?_
    · have := hreach (i + j) (.inr ⟨i, j, first, ha, hb, rfl⟩)
      omega
    · rw [skip_skip, skip_skip]
      exact hgo (i + j) _ s s' ⟨i, j, first, second, ha, hb, rfl, rfl⟩ hs
  | alt a b iha ihb =>
    have hfirst := iha hagree (fun n h => hreach n (.inl h)) hkept fun n captured s s' h => hgo n captured s s' (.inl h)
    have hsecond := ihb hagree (fun n h => hreach n (.inr h)) hkept fun n captured s s' h => hgo n captured s s' (.inr h)
    rw [attempt_alt, attempt_alt, Option.map_or, Option.map_or, hfirst, hsecond]
  | capture a ih =>
    refine ih hagree hreach hkept fun n inner s s' h _ => hgo n _ _ _ ⟨rfl, inner, h⟩ ?_
    exact congrArg some (hagree.chars_spanTo h.le (hreach n h.reaches))
  | boundary =>
    have hsame := hagree.atBoundary (hreach 0 rfl)
    rw [attempt, attempt, hsame]
    split
    · rename_i hb
      exact hgo 0 none _ _ ⟨hsame.trans hb, rfl, rfl⟩ hkept
    · rfl
  | lineStart =>
    rw [attempt, attempt, hagree.atLineStart]
    split
    · rename_i hb
      exact hgo 0 none _ _ ⟨hagree.atLineStart.trans hb, rfl, rfl⟩ hkept
    · rfl

theorem heard_congr (hagree : Agree k c d) (hreach : ∀ n, Reaches p c n → n < k) : heard p c = heard p d :=
  attempt_congr hagree hreach rfl fun _ _ _ _ _ hs => by simp [hs]

/-- Texts that begin alike agree at the places of their common start. -/
theorem agree_append {lead rest rest' : List Char} {i : Nat} (hi : i ≤ lead.length) :
    Agree (lead.length - i) ((ofText (lead ++ rest)).skip i) ((ofText (lead ++ rest')).skip i) := by
  have hstart : Agree lead.length (ofText (lead ++ rest)) (ofText (lead ++ rest')) :=
    ⟨rfl, by rw [ofText, ofText, List.take_left, List.take_left]⟩
  exact hstart.skip hi

theorem Reaches.le_of_caseless {word : String} (h : Reaches (caseless word) c n) : n ≤ word.toList.length := by
  unfold caseless at h
  generalize word.toList = cs at h ⊢
  induction cs generalizing c n with
  | nil => exact Nat.le_of_eq h
  | cons x more ih =>
    rw [List.length_cons]
    rcases h with (rfl | ⟨-, rfl, -⟩) | ⟨i, j, first, ⟨-, rfl, -⟩, hmore, rfl⟩
    · exact Nat.zero_le _
    · exact Nat.le_add_left ..
    · have := ih hmore
      omega

/-! ### Fences -/

/-- Can the last character before the end of a reading be in `hold`? Whether the one before
the start can be is told by `held`. -/
def leaves (hold : List Char) : Pattern → (held : Bool) → Bool
  | here, held | boundary, held | lineStart, held => held
  | one ok, _ => hold.any ok
  | run ok, held | lazyRun ok, held => held || hold.any ok
  | seq a b, held => leaves hold b (leaves hold a held)
  | alt a b, held => leaves hold a held || leaves hold b held
  | capture a, held => leaves hold a held

/-- Reading never goes on from a character of `hold` to one of `stop`. -/
def keepsOff (hold stop : List Char) : Pattern → (held : Bool) → Bool
  | here, _ | boundary, _ | lineStart, _ => true
  | one ok, held => !(held && stop.any ok)
  | run ok, held | lazyRun ok, held => !((held || hold.any ok) && stop.any ok)
  | seq a b, held => keepsOff hold stop a held && keepsOff hold stop b (leaves hold a held)
  | alt a b, held => keepsOff hold stop a held && keepsOff hold stop b held
  | capture a, held => keepsOff hold stop a held

/-- So many characters on, a character of `hold` stands before one of `stop`. -/
structure Fence (hold stop : List Char) (held : Bool) (rest : List Char) (k : Nat) : Prop where
  stopped : ∃ x ∈ stop, rest[k]? = some x
  start : k = 0 → held = true
  behind : ∀ j, k = j + 1 → ∃ x ∈ hold, rest[j]? = some x

variable {hold stop : List Char} {held : Bool}

theorem Fence.skip {rest : List Char} {i : Nat} (h : Fence hold stop held rest k) (hi : i ≤ k) {held' : Bool}
    (hheld : i = k → held' = true) : Fence hold stop held' (rest.drop i) (k - i) where
  stopped := by
    rw [List.getElem?_drop, Nat.add_sub_cancel' hi]
    exact h.stopped
  start hk := hheld (by omega)
  behind j hj := by
    rw [List.getElem?_drop]
    exact h.behind (i + j) (by omega)

theorem Fence.of_one (h : Fence hold stop held c.rest k) (hp : keepsOff hold stop (one ok) held = true)
    {captured : Option Span} (hreads : Reads (one ok) c n captured) :
    n ≤ k ∧ (n = k → leaves hold (one ok) held = true) := by
  obtain ⟨⟨x, rest, hrest, hx⟩, rfl, -⟩ := hreads
  have hmet {cs : List Char} (hmem : ∃ y ∈ cs, c.rest[0]? = some y) : cs.any ok = true := by
    obtain ⟨y, hy, hget⟩ := hmem
    obtain rfl : x = y := by simpa [hrest] using hget
    exact List.any_eq_true.mpr ⟨x, hy, hx⟩
  cases k with
  | zero =>
    rw [keepsOff, h.start rfl, hmet h.stopped] at hp
    cases hp
  | succ k => exact ⟨Nat.le_add_left .., fun hn => hmet (h.behind 0 hn.symm)⟩

theorem Fence.of_run (h : Fence hold stop held c.rest k) (hp : keepsOff hold stop (run ok) held = true)
    (hreads : Reads (run ok) c n none) : n ≤ k ∧ (n = k → leaves hold (run ok) held = true) := by
  have hmet {cs : List Char} {j : Nat} (hmem : ∃ x ∈ cs, c.rest[j]? = some x) (hj : j < n) : cs.any ok = true := by
    obtain ⟨x, hx, hget⟩ := hmem
    refine List.any_eq_true.mpr ⟨x, hx, hreads.2.1 x (List.mem_of_getElem? (i := j) ?_)⟩
    rw [List.getElem?_take_of_lt hj, hget]
  have hheld (hkn : k ≤ n) : (held || hold.any ok) = true := by
    cases k with
    | zero => rw [h.start rfl, Bool.true_or]
    | succ j => rw [hmet (h.behind j rfl) hkn, Bool.or_true]
  refine ⟨?_, fun hn => hheld (Nat.le_of_eq hn.symm)⟩
  by_contra hlt
  rw [keepsOff, hheld (by omega), hmet h.stopped (by omega)] at hp
  cases hp

/-- A pattern that keeps off such fences does not come over one, and where it comes up to
one it can have read a character of `hold` last. -/
theorem Fence.of_keepsOff (h : Fence hold stop held c.rest k) (hp : keepsOff hold stop p held = true) :
    (∀ n, Reaches p c n → n ≤ k) ∧ ∀ n captured, Reads p c n captured → n = k → leaves hold p held = true := by
  induction p generalizing c k held with
  | here | boundary | lineStart =>
    refine ⟨?_, ?_⟩
    · rintro n rfl
      exact Nat.zero_le k
    · intro n captured hreads hn
      obtain rfl : n = 0 := hreads.reaches
      exact h.start hn.symm
  | one ok =>
    refine ⟨?_, fun n captured hreads => (h.of_one hp hreads).2⟩
    rintro n (rfl | hreads)
    · exact Nat.zero_le k
    · exact (h.of_one hp hreads).1
  | run ok | lazyRun ok =>
    refine ⟨fun n hreads => (h.of_run hp hreads).1, fun n captured hreads => ?_⟩
    exact (h.of_run hp ⟨hreads.1, hreads.2.1, rfl⟩).2
  | seq a b iha ihb =>
    rw [keepsOff, Bool.and_eq_true] at hp
    obtain ⟨hreach, hread⟩ := iha h hp.1
    have hnext {i : Nat} {first : Option Span} (ha : Reads a c i first) :
        Fence hold stop (leaves hold a held) (c.skip i).rest (k - i) :=
      rest_skip c i ▸ h.skip (hreach i ha.reaches) (hread i first ha)
    constructor
    · rintro n (ha | ⟨i, j, first, ha, hb, rfl⟩)
      · exact hreach n ha
      · have := (ihb (hnext ha) hp.2).1 j hb
        have := hreach i ha.reaches
        omega
    · rintro n captured ⟨i, j, first, second, ha, hb, rfl, -⟩ hn
      exact (ihb (hnext ha) hp.2).2 j second hb (by omega)
  | alt a b iha ihb =>
    rw [keepsOff, Bool.and_eq_true] at hp
    obtain ⟨hreach, hread⟩ := iha h hp.1
    obtain ⟨hreach', hread'⟩ := ihb h hp.2
    refine ⟨fun n hn => hn.elim (hreach n) (hreach' n), fun n captured hreads hn => ?_⟩
    rw [leaves, Bool.or_eq_true]
    exact hreads.imp (hread n captured · hn) (hread' n captured · hn)
  | capture a ih =>
    obtain ⟨hreach, hread⟩ := ih h hp
    refine ⟨hreach, ?_⟩
    rintro n captured ⟨-, inner, ha⟩
    exact hread n inner ha

end Pattern

end CodeAtlas.Text
