import CodeAtlas.Proofs.Text.Case
import CodeAtlas.Proofs.Text.Locality
import CodeAtlas.Proofs.Text.Spaces
import CodeAtlas.Query.Phrase

/-! Path phrases.

A path phrase is the word `in`, white space, and as many characters of paths as there are,
with a slash or a dot among them (`Opens`). It is recognised where it opens, and its path
is what is captured (`captured?_inPath_iff`). The white space after the word is a fence:
no other phrase has white space after an n, so what begins before the path ends before it
(`heard_before_path`). -/
namespace CodeAtlas.Phrase
open Text Text.Pattern Text.Cursor

variable {c d : Cursor} {text path after spaces : List Char} {s : Span} {m : Match} {kept : Option Span}

/-! ### The path of a phrase -/

def isMark (c : Char) : Bool := c == '/' || c == '.'

/-- What can stand as a path: a mark, among characters of paths. -/
structure IsPath (path : List Char) : Prop where
  chars : ∀ x ∈ path, pathChar x = true
  mark : ∃ x ∈ path, isMark x = true

instance (path : List Char) : Decidable (IsPath path) :=
  decidable_of_iff (path.all pathChar = true ∧ path.any isMark = true)
    ⟨fun h => ⟨List.all_eq_true.mp h.1, List.any_eq_true.mp h.2⟩,
      fun h => ⟨List.all_eq_true.mpr h.chars, List.any_eq_true.mpr h.mark⟩⟩

theorem pathChar_of_isMark {x : Char} (h : isMark x = true) : pathChar x = true := by
  rcases Bool.or_eq_true_iff.mp h with h | h <;> rw [beq_iff_eq.mp h] <;> decide +kernel

theorem isSpace_of_pathChar {x : Char} (h : pathChar x = true) : isSpace x = false := by
  by_contra hspace
  rw [Bool.not_eq_false] at hspace
  have hno : pathChar x = false := of_isSpace (P := fun x => pathChar x = false) (by decide +kernel) hspace
  rw [h] at hno
  cases hno

/-- The stretch that a path phrase captures. -/
def pathPattern : Pattern := run pathChar ++ one isMark ++ run pathChar

theorem inPath_eq : inPath = boundary ++ caseless "in" ++ gap ++ capture pathPattern := rfl

/-- A path goes on as long as there are characters of paths. -/
theorem attempt_pathPattern {α : Type} {go : Cursor → Option Span → Option α} {r : α}
    (hgo : ∀ d kept, (go d kept).isSome = true) (h : attempt pathPattern c kept go = some r) :
    IsPath (c.rest.takeWhile pathChar) ∧ go (c.skip (c.rest.takeWhile pathChar).length) kept = some r := by
  obtain ⟨_, _, ⟨i, _, _, _, ⟨-, hbefore, rfl⟩, ⟨⟨x, rest, hrest, hx⟩, rfl, rfl⟩, rfl, rfl⟩, h⟩ :=
    reads_of_attempt (p := run pathChar ++ one isMark) h
  have htake : c.rest.take (i + 1) = c.rest.take i ++ [x] := by
    rw [List.take_add, ← rest_skip, hrest]
    rfl
  have hall : ∀ y ∈ c.rest.take (i + 1), pathChar y = true := by
    rw [htake]
    exact List.forall_mem_append.mpr ⟨hbefore, List.forall_mem_singleton.mpr (pathChar_of_isMark hx)⟩
  have hrun : c.rest.takeWhile pathChar = c.rest.take (i + 1) ++ (c.rest.drop (i + 1)).takeWhile pathChar := by
    rw [← List.takeWhile_append_of_pos hall, List.take_append_drop]
  have hlength : (c.rest.take (i + 1)).length = i + 1 := by
    have := congrArg List.length hrest
    rw [rest_skip, List.length_drop, List.length_cons] at this
    rw [List.length_take]
    omega
  refine ⟨⟨fun y hy => List.mem_takeWhile_imp hy, x, ?_, hx⟩, ?_⟩
  · rw [hrun, htake]
    simp
  · rw [attempt_run hgo, skip_skip, rest_skip] at h
    rwa [hrun, List.length_append, hlength]

theorem reads_pathPattern (hpath : IsPath path) (hrest : c.rest = path ++ after) :
    Reads pathPattern c path.length none := by
  obtain ⟨x, hx, hmark⟩ := hpath.mark
  obtain ⟨u, v, rfl⟩ := List.append_of_mem hx
  obtain ⟨hu, hv⟩ := List.forall_mem_append.mp hpath.chars
  rw [List.append_assoc, List.cons_append] at hrest
  have hmarked : (c.skip u.length).rest = x :: (v ++ after) := by rw [rest_skip, hrest, List.drop_left]
  have hfrom : (c.skip (u.length + 1)).rest = v ++ after := by rw [← skip_skip, rest_skip, hmarked]; rfl
  have hreads := ((reads_run hrest hu).followed (reads_one hmarked hmark)).followed
    (reads_run hfrom fun y hy => hv y (List.mem_cons_of_mem x hy))
  rwa [Nat.add_assoc, Nat.add_comm 1, ← List.length_cons, ← List.length_append] at hreads

/-- At a place the word `in` begins, and a path after it. -/
structure Opens (c : Cursor) (spaces path after : List Char) : Prop where
  boundary : c.atBoundary = true
  word : ∃ x y, c.rest = x :: y :: (spaces ++ (path ++ after)) ∧ fold x = 'i' ∧ fold y = 'n'
  nonempty : spaces ≠ []
  spaces : ∀ x ∈ spaces, isSpace x = true
  path : IsPath path
  ends : ∀ x ∈ after.head?, pathChar x = false

namespace Opens

theorem rest_skip_two (h : Opens c spaces path after) : (c.skip 2).rest = spaces ++ (path ++ after) := by
  obtain ⟨x, y, hrest, -⟩ := h.word
  rw [rest_skip, hrest]
  rfl

theorem takeWhile_path (hpath : IsPath path) (hends : ∀ x ∈ after.head?, pathChar x = false) :
    (path ++ after).takeWhile pathChar = path := by
  rw [List.takeWhile_append_of_pos hpath.chars]
  cases after with
  | nil => simp
  | cons x rest => simp [hends x rfl]

theorem takeWhile_spaces (h : Opens c spaces path after) : (spaces ++ (path ++ after)).takeWhile isSpace = spaces := by
  rw [List.takeWhile_append_of_pos h.spaces]
  obtain ⟨x, rest, hpath⟩ : ∃ x rest, path = x :: rest :=
    List.exists_cons_of_ne_nil fun hnil => by have := h.path.mark; simp [hnil] at this
  have hx := isSpace_of_pathChar (h.path.chars x (by simp [hpath]))
  simp [hpath, hx]

/-- What follows the word is one path after white space, in one way. -/
theorem unique (h : Opens c spaces path after) {spaces' path' after' : List Char} (h' : Opens c spaces' path' after') :
    spaces' = spaces ∧ path' = path := by
  have hrest : spaces' ++ (path' ++ after') = spaces ++ (path ++ after) := h'.rest_skip_two.symm.trans h.rest_skip_two
  have hspaces : spaces' = spaces := by rw [← h.takeWhile_spaces, ← hrest, h'.takeWhile_spaces]
  subst hspaces
  have hsame := List.append_cancel_left hrest
  exact ⟨rfl, by rw [← takeWhile_path h.path h.ends, ← hsame, takeWhile_path h'.path h'.ends]⟩

end Opens

theorem sameFold_iff {x y : Char} (hx : fold x = x) : sameFold x y = true ↔ fold y = x := by
  rw [sameFold, beq_iff_eq, hx, eq_comm]

theorem reads_in_iff {n : Nat} {captured : Option Span} : Reads (caseless "in") c n captured ↔
    n = 2 ∧ captured = none ∧ ∃ x y body, c.rest = x :: y :: body ∧ fold x = 'i' ∧ fold y = 'n' := by
  show Reads (one (sameFold 'i') ++ (one (sameFold 'n') ++ here)) c n captured ↔ _
  constructor
  · rintro ⟨_, _, _, _, ⟨⟨x, rest, hx, hi⟩, rfl, rfl⟩, ⟨_, _, _, _, hy, ⟨rfl, rfl⟩, rfl, rfl⟩, rfl, rfl⟩
    obtain ⟨⟨y, body, hy, hn⟩, rfl, rfl⟩ := hy
    rw [skip_one hx] at hy
    obtain rfl : rest = y :: body := hy
    exact ⟨rfl, rfl, x, y, body, hx, (sameFold_iff (by decide)).mp hi, (sameFold_iff (by decide)).mp hn⟩
  · rintro ⟨rfl, rfl, x, y, body, hrest, hi, hn⟩
    have hnext : (c.skip 1).rest = y :: body := by rw [rest_skip, hrest]; rfl
    exact (reads_one hrest ((sameFold_iff (by decide)).mpr hi)).followed
      ((reads_one hnext ((sameFold_iff (by decide)).mpr hn)).followed (reads_here _))

/-- A path phrase matches only where it opens, and captures its path. -/
theorem opens_of_matchAt? (h : matchAt? inPath c = some m) :
    ∃ spaces path after, Opens c spaces path after ∧ m.captured = some ⟨c.position + 2 + spaces.length, path⟩ := by
  rw [inPath_eq] at h
  obtain ⟨_, _, ⟨_, k, _, _, ⟨_, _, _, _, ⟨hb, rfl, rfl⟩, hin, rfl, rfl⟩, hgap, rfl, rfl⟩, hpath⟩ :=
    reads_of_attempt (p := boundary ++ caseless "in" ++ gap) h
  obtain ⟨rfl, rfl, x, y, body, hrest, hi, hn⟩ := (reads_in_iff (c := c)).mp hin
  obtain ⟨hpos, hspaces, rfl⟩ := hgap.of_some1
  have hle := hgap.le
  obtain ⟨hpath, hm⟩ := attempt_pathPattern (fun _ _ => rfl) hpath
  have hbody : (c.skip (0 + 2)).rest = body := by rw [rest_skip, hrest]; rfl
  have hrest' : (c.skip (0 + 2 + k)).rest = body.drop k := by rw [← skip_skip, rest_skip, hbody]
  rw [hbody] at hspaces hle
  rw [hrest'] at hpath hm
  have hlength : (body.take k).length = k := by rw [List.length_take, Nat.min_eq_left hle]
  refine ⟨body.take k, (body.drop k).takeWhile pathChar, (body.drop k).dropWhile pathChar,
    ⟨hb, ⟨x, y, ?_, hi, hn⟩, ?_, hspaces, hpath, fun x hx => ?_⟩, ?_⟩
  · rw [List.takeWhile_append_dropWhile, List.take_append_drop, hrest]
  · exact fun hnil => by rw [hnil] at hlength; exact absurd hlength (Nat.ne_of_lt hpos)
  · have hhead := List.head?_dropWhile_not pathChar (body.drop k)
    rw [hx] at hhead
    exact hhead
  · have hposition : (c.skip (0 + 2 + k)).position = c.position + 2 + k := by
      rw [position_skip (by rw [hrest, List.length_cons, List.length_cons]; omega), Nat.zero_add, Nat.add_assoc]
    have hchars : (body.drop k).take ((body.drop k).takeWhile pathChar).length = (body.drop k).takeWhile pathChar :=
      List.prefix_iff_eq_take.mp (List.takeWhile_prefix pathChar) |>.symm
    obtain rfl := Option.some.inj hm
    rw [hlength, spanTo_skip (by rw [hrest']; exact (List.takeWhile_prefix pathChar).length_le), hposition, hrest',
      hchars]

/-- Where a path phrase opens it matches. -/
theorem Opens.matchAt? (h : Opens c spaces path after) :
    ∃ m, matchAt? inPath c = some m ∧ m.captured = some ⟨c.position + 2 + spaces.length, path⟩ := by
  have hbody := h.rest_skip_two
  obtain ⟨x, y, hrest, hi, hn⟩ := h.word
  have hpath : (c.skip (2 + spaces.length)).rest = path ++ after := by
    rw [← skip_skip, rest_skip, hbody, List.drop_left]
  have hword : Reads (Pattern.boundary ++ caseless "in") c (0 + 2) none :=
    (reads_boundary h.boundary).followed (reads_in_iff.mpr ⟨rfl, rfl, x, y, _, hrest, hi, hn⟩)
  have hreads : Reads inPath c (2 + spaces.length + path.length) (some _) :=
    (hword.followed (reads_some1 hbody h.nonempty h.spaces)).followed ⟨rfl, none, reads_pathPattern h.path hpath⟩
  obtain ⟨m, hm⟩ := exists_matchAt? hreads
  obtain ⟨spaces', path', after', h', hcaptured⟩ := opens_of_matchAt? hm
  obtain ⟨rfl, rfl⟩ := h.unique h'
  exact ⟨m, hm, hcaptured⟩

/-! ### The first path phrase -/

/-- In a text the first path phrase opens here. -/
structure OpensFirst (text : List Char) (i : Nat) (spaces path after : List Char) : Prop where
  opens : Opens ((ofText text).skip i) spaces path after
  first : ∀ j < i, matchAt? inPath ((ofText text).skip j) = none

theorem captured?_inPath_iff : inPath.captured? text = some s ↔
    ∃ i spaces path after, OpensFirst text i spaces path after ∧ s = ⟨i + 2 + spaces.length, path⟩ := by
  rw [captured?, Option.bind_eq_bind, Option.bind_eq_some_iff]
  constructor
  · rintro ⟨m, hm, hs⟩
    obtain ⟨i, hi, hmatch, hfirst⟩ := find?_eq_some_iff.mp hm
    obtain ⟨spaces, path, after, hopens, hcaptured⟩ := opens_of_matchAt? hmatch
    rw [hs, position_at hi] at hcaptured
    exact ⟨i, spaces, path, after, ⟨hopens, hfirst⟩, Option.some.inj hcaptured⟩
  · rintro ⟨i, spaces, path, after, ⟨hopens, hfirst⟩, rfl⟩
    obtain ⟨m, hm, hcaptured⟩ := hopens.matchAt?
    obtain ⟨x, y, hrest, -⟩ := hopens.word
    have hi : i ≤ text.length := by
      have hlength := congrArg List.length hrest
      rw [rest_at, List.length_drop, List.length_cons] at hlength
      omega
    rw [position_at hi] at hcaptured
    exact ⟨m, find?_eq_some_iff.mpr ⟨i, hi, hm, hfirst⟩, hcaptured⟩

theorem OpensFirst.split {i : Nat} (h : OpensFirst text i spaces path after) :
    ∃ start x y, start.length = i ∧ fold x = 'i' ∧ fold y = 'n' ∧
      text = start ++ x :: y :: (spaces ++ (path ++ after)) := by
  obtain ⟨x, y, hrest, hi, hn⟩ := h.opens.word
  rw [rest_at] at hrest
  refine ⟨text.take i, x, y, ?_, hi, hn, by rw [← hrest, List.take_append_drop]⟩
  have hlength := congrArg List.length hrest
  rw [List.length_drop, List.length_cons] at hlength
  rw [List.length_take]
  omega

/-! ### Before the path -/

def letterN : List Char := ['n', 'N']

def whiteSpace : List Char := spaceCodes.map Char.ofNat

theorem mem_letterN {x : Char} (h : fold x = 'n') : x ∈ letterN :=
  of_fold (P := fun x => fold x = 'n' → x ∈ letterN) (by rw [h]; decide) (by decide +kernel) (by decide +kernel)
    (by decide +kernel) h

theorem mem_whiteSpace {x : Char} (h : isSpace x = true) : x ∈ whiteSpace :=
  List.mem_map.mpr ⟨x.toNat, mem_spaceCodes h, Char.ofNat_toNat x⟩

theorem lead_append (start : List Char) (x y : Char) (spaces rest : List Char) :
    start ++ x :: y :: (spaces ++ rest) = (start ++ x :: y :: spaces) ++ rest := by
  simp

theorem length_lead (start : List Char) (x y : Char) (spaces : List Char) :
    (start ++ x :: y :: spaces).length = start.length + 2 + spaces.length := by
  rw [List.length_append, List.length_cons, List.length_cons]
  omega

section Start

variable {start rest rest' : List Char} {x y : Char} {p : Pattern} {j : Nat}
variable (hy : fold y = 'n') (hne : spaces ≠ []) (hspaces : ∀ x ∈ spaces, isSpace x = true)

include hy hne hspaces

/-- The white space after the word `in` is a fence. -/
theorem fence_after_in (rest : List Char) :
    Fence letterN whiteSpace false (start ++ x :: y :: (spaces ++ rest)) (start.length + 2) where
  stopped := by
    obtain ⟨z, more, rfl⟩ := List.exists_cons_of_ne_nil hne
    exact ⟨z, mem_whiteSpace (hspaces z List.mem_cons_self), by simp⟩
  start h := by omega
  behind j hj := by
    obtain rfl : j = start.length + 1 := by omega
    exact ⟨y, mem_letterN hy, by simp⟩

theorem exists_fence (rest : List Char) (hj : j < start.length + 2 + spaces.length) :
    ∃ k, j + k < start.length + 2 + spaces.length ∧
      Fence letterN whiteSpace true ((start ++ x :: y :: (spaces ++ rest)).drop j) k := by
  have hpos := List.length_pos_iff.mpr hne
  by_cases hlow : j ≤ start.length + 2
  · exact ⟨start.length + 2 - j, by omega, (fence_after_in hy hne hspaces rest).skip hlow fun _ => rfl⟩
  · obtain ⟨l, rfl⟩ : ∃ l, j = start.length + 2 + l := ⟨j - (start.length + 2), by omega⟩
    have hl : l < spaces.length := by omega
    refine ⟨0, hj, ⟨spaces[l], mem_whiteSpace (hspaces _ (List.getElem_mem hl)), ?_⟩, fun _ => rfl, fun _ h => by omega⟩
    have hbody : (start ++ x :: y :: (spaces ++ rest)).drop (start.length + 2) = spaces ++ rest := by
      simp [← List.drop_drop]
    rw [← List.drop_drop, hbody, List.getElem?_drop, Nat.add_zero, List.getElem?_append_left hl,
      List.getElem?_eq_getElem hl]

omit hy hne hspaces in
/-- What a pattern hears that ends before the path does not depend on the path. -/
theorem heard_eq_of_reaches (hj : j < start.length + 2 + spaces.length)
    (hreach : ∀ n, Reaches p ((ofText (start ++ x :: y :: (spaces ++ rest))).skip j) n →
      j + n < start.length + 2 + spaces.length) :
    heard p ((ofText (start ++ x :: y :: (spaces ++ rest))).skip j) =
      heard p ((ofText (start ++ x :: y :: (spaces ++ rest'))).skip j) := by
  have hlength := length_lead start x y spaces
  rw [lead_append] at hreach
  rw [lead_append, lead_append]
  refine heard_congr (agree_append (by omega)) fun n hn => ?_
  have := hreach n hn
  omega

/-- A pattern that keeps off white space after an n ends before the path. -/
theorem heard_before_path (hp : keepsOff letterN whiteSpace p true = true) (hj : j < start.length + 2 + spaces.length) :
    heard p ((ofText (start ++ x :: y :: (spaces ++ rest))).skip j) =
      heard p ((ofText (start ++ x :: y :: (spaces ++ rest'))).skip j) := by
  obtain ⟨k, hk, hfence⟩ := exists_fence (x := x) hy hne hspaces rest hj
  rw [← rest_at] at hfence
  refine heard_eq_of_reaches hj fun n hn => ?_
  have := (hfence.of_keepsOff hp).1 n hn
  omega

/-- A path phrase that begins earlier ends before the path. -/
theorem heard_inPath_before (hj : j < start.length) :
    heard inPath ((ofText (start ++ x :: y :: (spaces ++ rest))).skip j) =
      heard inPath ((ofText (start ++ x :: y :: (spaces ++ rest'))).skip j) := by
  have hpos := List.length_pos_iff.mpr hne
  refine heard_eq_of_reaches (by omega) fun n hn => ?_
  rcases Reaches.assoc (a := boundary ++ caseless "in") (b := gap) (e := capture pathPattern) hn with
    hword | ⟨i, l, _, ⟨_, _, _, _, ⟨-, rfl, -⟩, hin, rfl, -⟩, htail, rfl⟩
  · have hle : n ≤ 2 := by
      rcases hword with rfl | ⟨_, l, _, ⟨-, rfl, -⟩, hin, rfl⟩
      · exact Nat.zero_le 2
      · simpa using hin.le_of_caseless
    omega
  · -- The word of the earlier phrase is not the one before the path, so its white space is not the fence.
    obtain ⟨rfl, -, -⟩ := reads_in_iff.mp hin
    have hfence : Fence letterN whiteSpace false ((start ++ x :: y :: (spaces ++ rest)).drop (j + 2))
        (start.length + 2 - (j + 2)) := (fence_after_in hy hne hspaces rest).skip (by omega) (by omega)
    rw [← rest_at, ← skip_skip] at hfence
    have := (hfence.of_keepsOff (p := gap ++ capture pathPattern) (by decide +kernel)).1 l htail
    omega

end Start

end CodeAtlas.Phrase
