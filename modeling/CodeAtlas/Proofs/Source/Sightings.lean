import CodeAtlas.Proofs.Text.Search
import CodeAtlas.Proofs.Text.Spaces
import CodeAtlas.Source.Imports
import Mathlib.Data.Char
import Mathlib.Data.List.Lex
import Mathlib.Data.List.Pairwise
import Mathlib.Data.Prod.Lex

/-! Where imports are seen.

A sighting is a captured path with the place where its match begins. The sightings of one
pattern come from left to right (`pairwise_sightings`). Python and the scripts have two
patterns each, whose matches may overlap: the white space before a statement may hold the
end of another one, and between `import` and its quotes there may be a `require`. Their
sightings are sorted by the places of the paths, which comes to the same as sorting by
the places of the matches, since of two matches the one that begins first has its path
first (`consistent_python`, `consistent_script`). -/
namespace CodeAtlas.Imports
open Text Text.Pattern

variable {text : List Char} {i n : Nat} {s t : Span}

/-! ### Statements that begin with a word -/

/-- The words that imports of Python begin with. -/
def leadingWords : List (List Char) := [['f', 'r', 'o', 'm'], ['i', 'm', 'p', 'o', 'r', 't']]

/-- White space, a word, more white space, and then something else. -/
structure Lead (word : List Char) (text : List Char) (start stop : Nat) : Prop where
  known : word ∈ leadingWords
  parts : ∃ middle, start ≤ middle ∧ Stretch text start middle isSpace ∧
    (∀ k < word.length, text[middle + k]? = word[k]?) ∧
    middle + word.length ≤ stop ∧ Stretch text (middle + word.length) stop isSpace ∧
    ∃ x, text[stop]? = some x ∧ isSpace x = false

theorem isSpace_of_dottedChar {c : Char} (h : dottedChar c = true) : isSpace c = false := by
  by_contra hspace
  rw [Bool.not_eq_false] at hspace
  rw [dottedChar, isWord_of_isSpace hspace, Bool.false_or, beq_iff_eq] at h
  rw [h] at hspace
  exact absurd hspace (by decide)

theorem lead_of_reads (word : String) (hknown : word.toList ∈ leadingWords)
    (h : Reads (indent ++ exactly word ++ space ++ capture (some1 dottedChar)) ((Cursor.ofText text).skip i) n
      (some s)) : Lead word.toList text i s.start := by
  obtain ⟨_, m, _, _, ⟨_, l, _, _, ⟨_, k, _, _, ⟨_, w, _, _, ⟨-, rfl, rfl⟩, ⟨-, hblanks, rfl⟩, rfl, rfl⟩, hword, rfl, rfl⟩,
    hspace, rfl, rfl⟩, hcapture, rfl, hs⟩ := h
  simp only [Nat.zero_add, Cursor.skip_zero, Cursor.skip_skip, ← Nat.add_assoc] at *
  obtain ⟨rfl, htake, rfl⟩ := hword.of_exactly
  obtain ⟨-, -, hspaces, rfl⟩ := hspace.of_some1_at
  obtain ⟨_, rfl, hstart, -, hpos, hle, hdotted⟩ := hcapture.of_captured_run
  obtain rfl := Option.some.inj hs
  have hstop : i + w + word.toList.length + l < text.length := by omega
  rw [hstart]
  refine ⟨hknown, i + w, Nat.le_add_right .., stretch_of_take hblanks, fun k hk => getElem?_of_take htake hk,
    Nat.le_add_right .., hspaces, _, List.getElem?_eq_getElem hstop, ?_⟩
  exact isSpace_of_dottedChar (hdotted _ (Nat.le_refl _) (by omega) _ (List.getElem?_eq_getElem hstop))

namespace Lead

variable {w v : List Char} {start start' stop stop' : Nat}

/-- No word has the first letter of another one, and none has its own a second time. -/
theorem heads_apart : ∀ w ∈ leadingWords, ∀ v ∈ leadingWords, ∀ k < v.length, v[k]? = w[0]? → k = 0 ∧ v = w := by
  decide

theorem lasts_apart : ∀ w ∈ leadingWords, ∀ v ∈ leadingWords, v[v.length - 1]? = w[w.length - 1]? → v = w := by
  decide

theorem length_pos : ∀ w ∈ leadingWords, 0 < w.length := by
  decide

theorem letters (h : w ∈ leadingWords) {c : Char} (hc : c ∈ w) : isSpace c = false := by
  have hall : (leadingWords.all fun w => w.all fun c => !isSpace c) = true := rfl
  simpa using List.all_eq_true.mp (List.all_eq_true.mp hall w h) c hc

theorem exists_letter (h : w ∈ leadingWords) {k : Nat} (hk : k < w.length) : ∃ x, w[k]? = some x ∧ isSpace x = false :=
  ⟨w[k], List.getElem?_eq_getElem hk, letters h (List.getElem_mem hk)⟩

/-- Of two statements the one that begins first has its path first. -/
theorem stop_le (h : Lead w text start stop) (h' : Lead v text start' stop') (hle : start' ≤ start) : stop' ≤ stop := by
  obtain ⟨hw, middle, hmiddle, -, hword, hend, -, y, hy, hblack⟩ := h
  obtain ⟨hv, middle', -, hblanks', hword', -, hspaces', -⟩ := h'
  have hpos := length_pos w hw
  obtain ⟨x, hx, hletter⟩ := exists_letter hw hpos
  have hhead : text[middle]? = some x := (hword 0 hpos).trans hx
  by_contra hlt
  -- The word of the one that begins later stands in the other's lead, so it is the other's word.
  have hlow : middle' ≤ middle := by
    by_contra hlow
    rw [hblanks' middle (by omega) (by omega) x hhead] at hletter
    cases hletter
  have hhigh : middle < middle' + v.length := by
    by_contra hhigh
    rw [hspaces' middle (by omega) (by omega) x hhead] at hletter
    cases hletter
  have hsame : v[middle - middle']? = w[0]? := by
    rw [← hword' _ (by omega), Nat.add_sub_cancel' hlow, hhead, hx]
  obtain ⟨hzero, rfl⟩ := heads_apart w hw v hv (middle - middle') (by omega) hsame
  rw [hspaces' stop (by omega) (by omega) y hy] at hblack
  cases hblack

/-- Two paths at one place have the same word before them. -/
theorem word_eq (h : Lead w text start stop) (h' : Lead v text start' stop) : v = w := by
  -- The later end of a word would be a letter in white space.
  have hend {w v : List Char} {m m' : Nat} (hv : v ∈ leadingWords) (hspaces : Stretch text (m + w.length) stop isSpace)
      (hword : ∀ k < v.length, text[m' + k]? = v[k]?) (hstop : m' + v.length ≤ stop) : m' + v.length ≤ m + w.length := by
    by_contra hlt
    have hpos := length_pos v hv
    obtain ⟨x, hx, hletter⟩ := exists_letter hv (k := v.length - 1) (by omega)
    rw [hspaces (m' + (v.length - 1)) (by omega) (by omega) x ((hword _ (by omega)).trans hx)] at hletter
    cases hletter
  obtain ⟨hw, m, -, -, hword, hstop, hspaces, -⟩ := h
  obtain ⟨hv, m', -, -, hword', hstop', hspaces', -⟩ := h'
  have hsame := Nat.le_antisymm (hend hv hspaces hword' hstop') (hend hw hspaces' hword hstop)
  have hposw := length_pos w hw
  have hposv := length_pos v hv
  refine lasts_apart w hw v hv ?_
  rw [← hword' _ (by omega), ← hword _ (by omega)]
  congr 1
  omega

end Lead

/-! ### Paths in quotes -/

def unquoted (c : Char) : Bool := !isQuote c

/-- The first quote from a place on opens a path that goes on to the next quote. -/
structure Quoted (text : List Char) (start : Nat) (s : Span) : Prop where
  parts : ∃ opening, s.start = opening + 1 ∧ start ≤ opening ∧ Stretch text start opening unquoted ∧
    ∃ x, text[opening]? = some x ∧ isQuote x = true
  inside : Stretch text s.start s.stop unquoted
  closing : ∃ x, text[s.stop]? = some x ∧ isQuote x = true

theorem quoted_of_reads {before : Pattern} (hsilent : before.isSilent = true) (hbefore : Within unquoted before)
    (h : Reads (before ++ quotedPath) ((Cursor.ofText text).skip i) n (some s)) : Quoted text i s := by
  obtain ⟨k, _, first, _, hreads, ⟨_, _, _, _, ⟨_, w, _, _, ⟨⟨x, rest, hx, hquote⟩, rfl, rfl⟩, hcapture, rfl, rfl⟩,
    ⟨⟨y, rest', hy, hquote'⟩, rfl, rfl⟩, rfl, rfl⟩, rfl, hs⟩ := h
  simp only [Cursor.skip_skip, ← Nat.add_assoc] at *
  obtain ⟨_, rfl, hstart, hstop, -, -, hinside⟩ := hcapture.of_captured_run
  obtain rfl : first = none := hreads.of_silent hsilent
  obtain rfl := Option.some.inj hs
  have hat {j : Nat} {x : Char} {rest : List Char} (h : ((Cursor.ofText text).skip j).rest = x :: rest) :
      text[j]? = some x := by
    rw [← Nat.add_zero j, ← getElem?_rest, h]
    rfl
  refine ⟨⟨i + k, hstart, Nat.le_add_right .., stretch_of_take (hreads.all_ok hbefore), x, hat hx, hquote⟩, ?_, ?_⟩
  · rwa [hstart, hstop]
  · rw [hstop]
    exact ⟨y, hat hy, hquote'⟩

namespace Quoted

variable {start start' : Nat}

theorem start_le (h : Quoted text start s) (h' : Quoted text start' t) (hle : start' ≤ start) : t.start ≤ s.start := by
  obtain ⟨opening, heq, hopening, -, x, hx, hquote⟩ := h.parts
  obtain ⟨opening', heq', -, hunquoted, -⟩ := h'.parts
  by_contra hlt
  have hfree := hunquoted opening (by omega) (by omega) x hx
  rw [unquoted, hquote] at hfree
  cases hfree

theorem stop_le (h : Quoted text start s) (h' : Quoted text start' t) (hstart : s.start = t.start) :
    t.stop ≤ s.stop := by
  obtain ⟨x, hx, hquote⟩ := h.closing
  by_contra hlt
  have hfree := h'.inside s.stop (hstart ▸ Nat.le_add_right ..) (by omega) x hx
  rw [unquoted, hquote] at hfree
  cases hfree

theorem stop_eq (h : Quoted text start s) (h' : Quoted text start' t) (hstart : s.start = t.start) : s.stop = t.stop :=
  Nat.le_antisymm (h'.stop_le h hstart.symm) (h.stop_le h' hstart)

end Quoted

/-! ### Sightings -/

/-- A captured path, with the place where the match begins. -/
structure Sighting where
  position : Nat
  path : Span

def Sighting.name (a : Sighting) : String := tidy a.path.chars

/-- What the matches of a pattern capture, from left to right. -/
def sightings (p : Pattern) (text : List Char) : List Sighting :=
  (p.findAll text).filterMap fun m => m.captured.map fun s => ⟨m.whole.start, s⟩

theorem map_sightings (p : Pattern) (text : List Char) : (sightings p text).map Sighting.path = p.capturedAll text := by
  rw [sightings, List.map_filterMap]
  refine List.filterMap_congr fun m _ => ?_
  rw [Option.map_map]
  exact Option.map_id_fun' ▸ rfl

theorem mem_sightings {p : Pattern} {a : Sighting} :
    a ∈ sightings p text ↔ ∃ m ∈ p.findAll text, m.whole.start = a.position ∧ m.captured = some a.path := by
  simp only [sightings, List.mem_filterMap, Option.map_eq_some_iff]
  constructor
  · rintro ⟨m, hm, s, hs, rfl⟩
    exact ⟨m, hm, rfl, hs⟩
  · rintro ⟨m, hm, hstart, hs⟩
    exact ⟨m, hm, _, hs, by rw [hstart]⟩

theorem pairwise_sightings (p : Pattern) (text : List Char) :
    (sightings p text).Pairwise fun a b => a.position < b.position ∧ a.path.stop ≤ b.path.start := by
  refine List.pairwise_filterMap.mpr ((pairwise_findAll p text).imp_of_mem fun {m n} hm hn hbefore a ha b hb => ?_)
  obtain ⟨s, hs, rfl⟩ := Option.map_eq_some_iff.mp ha
  obtain ⟨t, ht, rfl⟩ := Option.map_eq_some_iff.mp hb
  have hstop := (captured_of_mem hm hs).2.1
  have hstart := (captured_of_mem hn ht).1
  exact ⟨hbefore.1, hstop.trans (hbefore.2.trans hstart)⟩

/-- Before another path, at another place: what the order of two sightings comes to, where
neither path is empty and they are not the same. -/
def Sighting.IsBefore (a b : Sighting) : Prop :=
  a.path.chars ≠ [] → b.path.chars ≠ [] → a.path.chars ≠ b.path.chars → a.position < b.position

/-! ### Sorting -/

/-- By place, and then by the path. -/
def isSooner (a b : Span) : Bool :=
  a.start < b.start || (a.start == b.start && !b.chars.lex a.chars (·.toNat < ·.toNat))

theorem isSooner_iff {a b : Span} :
    isSooner a b = true ↔ (toLex (a.start, a.chars) : ℕ ×ₗ List Char) ≤ toLex (b.start, b.chars) := by
  have hlex : b.chars.lex a.chars (·.toNat < ·.toNat) = true ↔ b.chars < a.chars := by
    rw [List.lex_eq_true_iff_lex]
    simp only [decide_eq_true_eq]
    rfl
  rw [Prod.Lex.toLex_le_toLex, ← not_lt (a := b.chars), ← hlex]
  simp [isSooner]

/-- Where the later of two matches has its path later, and there is one path at a place,
sorting by the paths sorts by the matches. -/
structure Consistent (seen : List Sighting) : Prop where
  start_le : ∀ a ∈ seen, ∀ b ∈ seen, b.position ≤ a.position → b.path.start ≤ a.path.start
  chars_eq : ∀ a ∈ seen, ∀ b ∈ seen, a.path.chars ≠ [] → b.path.chars ≠ [] → a.path.start = b.path.start →
    a.path.chars = b.path.chars

theorem Consistent.sorted {seen : List Sighting} (h : Consistent seen) :
    (seen.mergeSort fun a b => isSooner a.path b.path).Pairwise Sighting.IsBefore := by
  have hsorted : (seen.mergeSort fun a b => isSooner a.path b.path).Pairwise fun a b =>
      isSooner a.path b.path = true := by
    refine List.pairwise_mergeSort (fun a b c hab hbc => ?_) (fun a b => ?_) seen
    · rw [isSooner_iff] at hab hbc ⊢
      exact hab.trans hbc
    · rw [Bool.or_eq_true, isSooner_iff, isSooner_iff]
      exact le_total _ _
  refine hsorted.imp_of_mem fun ha hb hsooner hne hne' hdiffer => ?_
  rw [List.mem_mergeSort] at ha hb
  by_contra hlt
  have hback := h.start_le _ ha _ hb (Nat.le_of_not_lt hlt)
  have hle := (Prod.Lex.toLex_le_toLex.mp (isSooner_iff.mp hsooner)).elim Nat.le_of_lt fun h => Nat.le_of_eq h.1
  exact hdiffer (h.chars_eq _ ha _ hb hne hne' (Nat.le_antisymm hle hback))

def Sighting.IsApart (a b : Sighting) : Prop := a.path.chars ≠ [] → b.path.chars ≠ [] → a.path.start ≠ b.path.start

instance : Std.Symm Sighting.IsApart := ⟨fun _ _ h hne hne' heq => h hne' hne heq.symm⟩

/-- One pattern captures one path at a place. -/
theorem eq_of_start_eq {p : Pattern} {a b : Sighting} (ha : a ∈ sightings p text) (hb : b ∈ sightings p text)
    (hne : a.path.chars ≠ []) (hne' : b.path.chars ≠ []) (hstart : a.path.start = b.path.start) : a = b := by
  have hapart : (sightings p text).Pairwise Sighting.IsApart := by
    refine (pairwise_sightings p text).imp fun {a b} h hne _ hstart => ?_
    have hpos := List.length_pos_iff.mpr hne
    have hstop := h.2
    rw [Span.stop] at hstop
    omega
  by_contra hdiffer
  exact hapart.forall ha hb hdiffer hne hne' hstart

theorem reads_of_mem_sightings {p : Pattern} {a : Sighting} (h : a ∈ sightings p text) :
    ∃ n, Reads p ((Cursor.ofText text).skip a.position) n (some a.path) := by
  obtain ⟨m, hm, hstart, hs⟩ := mem_sightings.mp h
  have hreads := (reads_of_mem hm).1
  rw [hstart, hs] at hreads
  exact ⟨_, hreads⟩

theorem consistent_python (text : List Char) :
    Consistent ([pythonFrom, pythonImport].flatMap fun p => sightings p text) := by
  have hfrom {a : Sighting} (ha : a ∈ sightings pythonFrom text) :
      Lead ['f', 'r', 'o', 'm'] text a.position a.path.start := by
    obtain ⟨n, hreads⟩ := reads_of_mem_sightings ha
    obtain ⟨n, hreads⟩ := hreads.left rfl
    obtain ⟨n, hreads⟩ := hreads.left rfl
    obtain ⟨n, hreads⟩ := hreads.left rfl
    exact lead_of_reads "from" List.mem_cons_self hreads
  have himport {a : Sighting} (ha : a ∈ sightings pythonImport text) :
      Lead ['i', 'm', 'p', 'o', 'r', 't'] text a.position a.path.start := by
    obtain ⟨n, hreads⟩ := reads_of_mem_sightings ha
    exact lead_of_reads "import" (List.mem_cons_of_mem _ List.mem_cons_self) hreads
  have hlead {a : Sighting} (ha : a ∈ [pythonFrom, pythonImport].flatMap fun p => sightings p text) :
      (a ∈ sightings pythonFrom text ∧ Lead ['f', 'r', 'o', 'm'] text a.position a.path.start) ∨
        (a ∈ sightings pythonImport text ∧ Lead ['i', 'm', 'p', 'o', 'r', 't'] text a.position a.path.start) := by
    simp only [List.flatMap_cons, List.flatMap_nil, List.append_nil, List.mem_append] at ha
    exact ha.imp (fun h => ⟨h, hfrom h⟩) fun h => ⟨h, himport h⟩
  constructor
  · intro a ha b hb hle
    rcases hlead ha with ⟨-, ha⟩ | ⟨-, ha⟩ <;> rcases hlead hb with ⟨-, hb⟩ | ⟨-, hb⟩ <;> exact ha.stop_le hb hle
  · intro a ha b hb hne hne' hstart
    rcases hlead ha with ⟨ha, hla⟩ | ⟨ha, hla⟩ <;> rcases hlead hb with ⟨hb, hlb⟩ | ⟨hb, hlb⟩
    · rw [eq_of_start_eq ha hb hne hne' hstart]
    · exact absurd (hla.word_eq (hstart ▸ hlb)) (by decide)
    · exact absurd (hla.word_eq (hstart ▸ hlb)) (by decide)
    · rw [eq_of_start_eq ha hb hne hne' hstart]

theorem consistent_script (text : List Char) :
    Consistent ([scriptImport, scriptRequire].flatMap fun p => sightings p text) := by
  have hspace : ∀ x, isSpace x = true → unquoted x = true := fun x hx =>
    of_isSpace (P := fun x => unquoted x = true) (by decide) hx
  have hquoted {a : Sighting} (ha : a ∈ [scriptImport, scriptRequire].flatMap fun p => sightings p text) :
      Quoted text a.position a.path ∧ a.path.chars = (text.drop a.path.start).take a.path.chars.length := by
    simp only [List.flatMap_cons, List.flatMap_nil, List.append_nil, List.mem_append] at ha
    constructor
    · rcases ha with ha | ha
      · obtain ⟨n, hreads⟩ := reads_of_mem_sightings ha
        refine quoted_of_reads rfl ?_ hreads
        exact ⟨⟨⟨⟨trivial, hspace⟩, within_exactly rfl⟩, hspace, hspace⟩,
          ⟨⟨⟨fun _ => id, hspace, hspace⟩, within_exactly rfl⟩, hspace, hspace⟩, trivial⟩
      · obtain ⟨n, hreads⟩ := reads_of_mem_sightings ha
        obtain ⟨n, hreads⟩ := hreads.left rfl
        obtain ⟨n, hreads⟩ := hreads.left rfl
        refine quoted_of_reads rfl ?_ hreads
        exact ⟨within_exactly rfl, hspace⟩
    · rcases ha with ha | ha <;> obtain ⟨m, hm, -, hs⟩ := mem_sightings.mp ha <;> exact (captured_of_mem hm hs).2.2
  constructor
  · exact fun a ha b hb hle => (hquoted ha).1.start_le (hquoted hb).1 hle
  · intro a ha b hb _ _ hstart
    have hstop := (hquoted ha).1.stop_eq (hquoted hb).1 hstart
    have hlength : a.path.chars.length = b.path.chars.length := by
      rw [Span.stop, Span.stop] at hstop
      omega
    rw [(hquoted ha).2, (hquoted hb).2, hstart, hlength]

end CodeAtlas.Imports
