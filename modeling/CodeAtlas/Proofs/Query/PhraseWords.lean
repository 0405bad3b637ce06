import CodeAtlas.Proofs.Query.PathPhrases

/-! The words of relationship phrases.

A relationship phrase is one of a few texts, white space, and a name. None of the texts has
white space after an n, and each begins with a letter. A phrase that begins in a path has
the end of the path as its first word, since there is no white space in a path
(`word_of_reads`). So none begins in a path that does not end in one of the words
(`noneBegins_of_not_suffix`). -/
namespace CodeAtlas.Phrase
open Text Text.Pattern Text.Cursor

variable {c : Cursor} {lead path after : List Char} {n : Nat} {captured : Option Span} {a b p : Pattern}

/-- The patterns of the phrases that win over all else. -/
def relationPatterns : List Pattern := [calls, «extends», implements]

/-- No relationship phrase begins in the path. -/
def NoneBegins (text : List Char) (s : Span) : Prop :=
  ∀ p ∈ relationPatterns, ∀ i < s.chars.length, matchAt? p ((ofText text).skip (s.start + i)) = none

theorem keepsOff_relationPatterns : ∀ p ∈ relationPatterns, keepsOff letterN whiteSpace p true = true := by
  decide +kernel

theorem pathChar_of_fold {x : Char} (h : isAsciiLetter (fold x) = true) : pathChar x = true := by
  simp [pathChar, isWord_of_fold h]

theorem pathChar_of_sameFold (z : Char) (hz : isAsciiLetter (fold z) = true) (x : Char) (h : sameFold z x = true) :
    pathChar x = true :=
  pathChar_of_fold (beq_iff_eq.mp h ▸ hz)

theorem begins_relationPatterns : ∀ p ∈ relationPatterns, BeginsWithin pathChar p := by
  have hc := pathChar_of_sameFold 'c' rfl
  have he := pathChar_of_sameFold 'e' rfl
  have hi := pathChar_of_sameFold 'i' rfl
  have hs := pathChar_of_sameFold 's' rfl
  refine List.forall_mem_cons.mpr ⟨?_, List.forall_mem_cons.mpr ⟨?_, List.forall_mem_singleton.mpr ?_⟩⟩
  · exact .inl (.inl (.inl (.inr ⟨rfl, .inl hc⟩)))
  · exact .inl (.inl (.inr ⟨rfl, .inl he, .inl he, .inl hi, .inl hi, .inl hs⟩))
  · exact .inl (.inl (.inl (.inr ⟨rfl, .inl hi⟩)))

/-! ### Spelling -/

/-- Up to case, the pattern reads nothing but these texts. -/
def Spells (p : Pattern) (texts : List (List Char)) : Prop :=
  ∀ c n captured, Reads p c n captured → ∃ t ∈ texts, n = t.length ∧ (c.rest.take n).map fold = t

theorem spells_here : Spells here [[]] := by
  rintro c n captured ⟨rfl, -⟩
  exact ⟨[], List.mem_singleton_self _, rfl, rfl⟩

theorem spells_boundary : Spells boundary [[]] := by
  rintro c n captured ⟨-, rfl, -⟩
  exact ⟨[], List.mem_singleton_self _, rfl, rfl⟩

theorem Spells.seq {us vs : List (List Char)} (ha : Spells a us) (hb : Spells b vs) :
    Spells (a ++ b) (us.flatMap fun u => vs.map (u ++ ·)) := by
  rintro c n captured ⟨i, j, first, second, hfirst, hsecond, rfl, -⟩
  obtain ⟨u, hu, rfl, htake⟩ := ha c i first hfirst
  obtain ⟨v, hv, rfl, hdrop⟩ := hb _ j second hsecond
  refine ⟨u ++ v, List.mem_flatMap.mpr ⟨u, hu, List.mem_map_of_mem hv⟩, List.length_append.symm, ?_⟩
  rw [List.take_add, List.map_append, htake, ← rest_skip, hdrop]

theorem Spells.alt {us vs : List (List Char)} (ha : Spells a us) (hb : Spells b vs) : Spells (alt a b) (us ++ vs) := by
  rintro c n captured (h | h)
  · obtain ⟨t, ht, hspelled⟩ := ha c n captured h
    exact ⟨t, List.mem_append_left _ ht, hspelled⟩
  · obtain ⟨t, ht, hspelled⟩ := hb c n captured h
    exact ⟨t, List.mem_append_right _ ht, hspelled⟩

theorem spells_caseless (text : String) : Spells (caseless text) [text.toList.map fold] := by
  unfold caseless
  generalize text.toList = cs
  induction cs with
  | nil => exact spells_here
  | cons x more ih =>
    have hone : Spells (one (sameFold x)) [[fold x]] := by
      rintro c n captured ⟨⟨y, rest, hrest, hy⟩, rfl, -⟩
      refine ⟨_, List.mem_singleton_self _, rfl, ?_⟩
      rw [hrest, List.take_succ_cons, List.take_zero, List.map_singleton, beq_iff_eq.mp hy]
    exact hone.seq ih

/-- The texts of relationship phrases, before the white space and the name. -/
def phraseTexts : List (List Char) :=
  ["call", "calls", "calling", "called by", "extends", "extend", "inherits from", "inherit from", "subclasses of",
    "implement", "implements", "implementing", "implementations of"].map String.toList

/-- The text stands at a place, up to case, and white space after it. -/
structure Stands (t : List Char) (c : Cursor) : Prop where
  chars : (c.rest.take t.length).map fold = t
  blank : ∃ x, c.rest[t.length]? = some x ∧ isSpace x = true

theorem exists_stands (hp : p ∈ relationPatterns) (h : Reads p c n captured) : ∃ t ∈ phraseTexts, Stands t c := by
  have hgap {a : Pattern} {texts : List (List Char)} (hsub : texts ⊆ phraseTexts) (ha : Spells a texts)
      (h : Reads (a ++ gap ++ target) c n captured) : ∃ t ∈ phraseTexts, Stands t c := by
    obtain ⟨_, _, _, _, ⟨i, j, first, _, hfirst, hspace, rfl, -⟩, -⟩ := h
    obtain ⟨t, ht, rfl, htake⟩ := ha c i first hfirst
    obtain ⟨_, _, _, _, ⟨⟨x, rest, hrest, hx⟩, -⟩, -⟩ := hspace
    refine ⟨t, hsub ht, htake, x, ?_, hx⟩
    rw [← Nat.add_zero t.length, ← List.getElem?_drop, ← rest_skip, hrest]
    rfl
  rw [relationPatterns, List.mem_cons, List.mem_cons, List.mem_singleton] at hp
  obtain rfl | rfl | rfl := hp
  · refine hgap ?_ ((spells_boundary.seq (spells_caseless "call")).seq (((spells_caseless "s").alt
      ((spells_caseless "ing").alt (spells_caseless "ed by"))).alt spells_here)) h
    decide +kernel
  · refine hgap ?_ (spells_boundary.seq ((spells_caseless "extends").alt ((spells_caseless "extend").alt
      ((spells_caseless "inherits from").alt ((spells_caseless "inherit from").alt
      (spells_caseless "subclasses of")))))) h
    decide +kernel
  · refine hgap ?_ ((spells_boundary.seq (spells_caseless "implement")).seq (((spells_caseless "s").alt
      ((spells_caseless "ing").alt (spells_caseless "ations of"))).alt spells_here)) h
    decide +kernel

/-! ### Words at the end of a path -/

/-- The first words of the texts. -/
def phraseWords : List (List Char) := phraseTexts.map fun t => t.takeWhile (· != ' ')

theorem letter_of_mem_text {t : List Char} (ht : t ∈ phraseTexts) {x : Char} (hx : x ∈ t) :
    x = ' ' ∨ isAsciiLetter x = true := by
  have hall : (phraseTexts.all fun t => t.all fun x => x == ' ' || isAsciiLetter x) = true := by decide +kernel
  have hx := List.all_eq_true.mp (List.all_eq_true.mp hall t ht) x hx
  rwa [Bool.or_eq_true, beq_iff_eq] at hx

theorem eq_blank_of_fold {x : Char} (h : fold x = ' ') : x = ' ' :=
  of_fold (P := fun x => fold x = ' ' → x = ' ') (by rw [h]; decide) (by decide +kernel) (by decide +kernel)
    (by decide +kernel) h

/-- A phrase that begins in a path takes all of what is left of the path for its first word. -/
theorem word_of_reads (hp : p ∈ relationPatterns) (h : Reads p c n captured) (hrest : c.rest = path ++ after)
    (hpath : ∀ x ∈ path, pathChar x = true) (hends : ∀ x ∈ after.head?, pathChar x = false) :
    path.map fold ∈ phraseWords := by
  obtain ⟨t, ht, htake, x, hx, hspace⟩ := exists_stands hp h
  rw [hrest] at htake hx
  have hlong : path.length ≤ t.length := by
    by_contra hshort
    rw [List.getElem?_append_left (by omega)] at hx
    rw [isSpace_of_pathChar (hpath x (List.mem_of_getElem? hx))] at hspace
    cases hspace
  have hsplit := htake
  rw [List.take_append, List.take_of_length_le hlong, List.map_append] at hsplit
  have hword : ∀ y ∈ path.map fold, (y != ' ') = true := by
    intro y hy
    obtain ⟨z, hz, rfl⟩ := List.mem_map.mp hy
    rw [bne_iff_ne]
    intro hblank
    have := isSpace_of_pathChar (hpath z hz)
    rw [eq_blank_of_fold hblank] at this
    cases this
  have hblank : ((after.take (t.length - path.length)).map fold).takeWhile (· != ' ') = [] := by
    cases htail : after.take (t.length - path.length) with
    | nil => rfl
    | cons y more =>
      -- What follows the path is no letter, so the text goes on with a blank.
      have hafter : after = y :: (more ++ after.drop (t.length - path.length)) := by
        rw [← List.cons_append, ← htail, List.take_append_drop]
      have hy : pathChar y = false := hends y (by rw [hafter]; rfl)
      have hmem : fold y ∈ t := by rw [← hsplit, htail]; simp
      have hblank : fold y = ' ' := (letter_of_mem_text ht hmem).resolve_right fun hletter => by
        rw [pathChar_of_fold hletter] at hy
        cases hy
      rw [List.map_cons, hblank]
      rfl
  refine List.mem_map.mpr ⟨t, ht, ?_⟩
  rw [← hsplit, List.takeWhile_append_of_pos hword, hblank, List.append_nil]

/-- No relationship phrase begins in a path that does not end in a word of one. -/
theorem noneBegins_of_not_suffix (hpath : IsPath path) (hends : ∀ x ∈ after.head?, pathChar x = false)
    (h : ∀ w ∈ phraseWords, ¬w <:+ path.map fold) : NoneBegins (lead ++ (path ++ after)) ⟨lead.length, path⟩ := by
  intro p hp i hi
  rw [Option.eq_none_iff_forall_ne_some]
  intro m hm
  obtain ⟨n, hreads, -⟩ := exists_reads_of_matchAt? hm
  have hrest : ((ofText (lead ++ (path ++ after))).skip (lead.length + i)).rest = path.drop i ++ after := by
    rw [rest_at, ← List.drop_drop, List.drop_left, List.drop_append_of_le_length (Nat.le_of_lt hi)]
  have hword := word_of_reads hp hreads hrest (fun x hx => hpath.chars x (List.mem_of_mem_drop hx)) hends
  refine h _ hword ?_
  rw [List.map_drop]
  exact List.drop_suffix i _

end CodeAtlas.Phrase
