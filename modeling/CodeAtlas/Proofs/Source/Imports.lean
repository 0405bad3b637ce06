import CodeAtlas.Proofs.Graph.Parts
import CodeAtlas.Proofs.Source.Sightings
import Mathlib.Order.Bounds.Basic
import Mathlib.Order.Nat

/-! Imports in their order.

A scan lists the paths that the patterns of a language capture, each once
(`scan_lists_imports`). What is found is a list of sightings, one part outside of blocks
and one in them, and in each part the sightings that come down to different paths come in
the order of their matches (`pairwise_sightingsOf`). Keeping the first of each path then
lists the paths by their first places (`ordered_firsts`). Blocks, which only Go has, come
last, wherever they stand. -/
namespace CodeAtlas.Imports
open Text Text.Pattern

variable {text : List Char} {i : ℕ}

/-! ### What is found -/

/-- The patterns for the statements of a language. -/
def statements : Language → List Pattern
  | .rust => [rustUse]
  | .python => [pythonFrom, pythonImport]
  | .typeScript | .javaScript => [scriptImport, scriptRequire]
  | .go => [goSingle]
  | .java => [javaImport]
  | _ => []

/-- The sightings outside of blocks, in the order in which they count. -/
def outside (language : Language) (text : List Char) : List Sighting :=
  let seen := (statements language).flatMap fun p => sightings p text
  match language with
  | .python | .typeScript | .javaScript => seen.mergeSort fun a b => isSooner a.path b.path
  | _ => seen

/-- The sightings in blocks. -/
def inside (language : Language) (text : List Char) : List Sighting :=
  if language = .go then
    (goBlock.capturedAll text).flatMap fun block =>
      (sightings doubleQuoted block.chars).map fun a => ⟨block.start + a.position, a.path⟩
  else []

theorem found_eq (language : Language) (text : List Char) :
    found language text = (outside language text ++ inside language text).map Sighting.path := by
  have hsorted (patterns : List Pattern) : inOrder patterns text =
      ((patterns.flatMap fun p => sightings p text).mergeSort fun a b => isSooner a.path b.path).map Sighting.path := by
    rw [List.map_mergeSort (s := isSooner) fun _ _ _ _ => rfl, List.map_flatMap]
    simp only [map_sightings]
    rfl
  have hblocks (block : Span) : ((sightings doubleQuoted block.chars).map fun a =>
      (⟨block.start + a.position, a.path⟩ : Sighting)).map Sighting.path = doubleQuoted.capturedAll block.chars := by
    rw [List.map_map, ← map_sightings]
    rfl
  cases language <;> simp [found, outside, inside, statements, hsorted, map_sightings, List.map_flatMap, hblocks]

theorem pairwise_outside (language : Language) (text : List Char) :
    (outside language text).Pairwise Sighting.IsBefore := by
  have hone (p : Pattern) : (sightings p text).Pairwise Sighting.IsBefore :=
    (pairwise_sightings p text).imp fun h _ _ _ => h.1
  cases language with
  | rust | go | java => simpa [outside, statements] using hone _
  | python => exact (consistent_python text).sorted
  | typeScript | javaScript => exact (consistent_script text).sorted
  | c | cpp | cSharp | other => exact List.Pairwise.nil

theorem position_lt {p : Pattern} {a : Sighting} (h : a ∈ sightings p text) (hne : a.path.chars ≠ []) :
    a.position < text.length := by
  obtain ⟨m, hm, hposition, hs⟩ := mem_sightings.mp h
  obtain ⟨hstart, hstop, -⟩ := captured_of_mem hm hs
  have hend := (reads_of_mem hm).2
  have hpos := List.length_pos_iff.mpr hne
  rw [Span.stop] at hstop
  omega

theorem pairwise_inside (language : Language) (text : List Char) :
    (inside language text).Pairwise Sighting.IsBefore := by
  rw [inside]
  split
  · rw [← map_sightings, List.flatMap_map, List.pairwise_flatMap]
    constructor
    · intro block _
      refine List.pairwise_map.mpr ((pairwise_sightings _ _).imp fun h _ _ _ => ?_)
      exact Nat.add_lt_add_left h.1 _
    · refine (pairwise_sightings goBlock text).imp fun {b c} hbefore x hx y hy hne _ _ => ?_
      obtain ⟨a, ha, rfl⟩ := List.mem_map.mp hx
      obtain ⟨d, -, rfl⟩ := List.mem_map.mp hy
      have hlt := position_lt ha hne
      have hstop := hbefore.2
      rw [Span.stop] at hstop
      show b.path.start + a.position < c.path.start + d.position
      omega
  · exact List.Pairwise.nil

/-! ### Firsts -/

variable {seen paths : List String}

theorem firsts_eq (seen paths : List String) : scan.firsts seen paths = firstsBy.go id seen paths := by
  induction paths generalizing seen with
  | nil => rfl
  | cons p rest ih => rw [scan.firsts, firstsBy.go, ih, ih]; rfl

theorem mem_firsts {path : String} : path ∈ scan.firsts seen paths ↔ path ∈ paths ∧ path ∉ seen := by
  rw [firsts_eq]
  constructor
  · exact fun h => ⟨mem_firstsBy_go h, (nodup_firstsBy_go id seen paths).2 path (by simpa using h)⟩
  · rintro ⟨hmem, hnew⟩
    obtain ⟨y, hy, rfl⟩ : ∃ y ∈ firstsBy.go id seen paths, id y = id path := exists_firstsBy_go hmem hnew
    exact hy

theorem nodup_firsts (seen paths : List String) : (scan.firsts seen paths).Nodup := by
  have hnodup := (nodup_firstsBy_go id seen paths).1
  rwa [List.map_id, ← firsts_eq] at hnodup

/-- The firsts keep their order: where one is, none that comes later has been. -/
theorem pairwise_firsts (seen paths : List String) :
    (scan.firsts seen paths).Pairwise fun p q => ∃ u v, paths = u ++ p :: v ∧ q ∉ u := by
  induction paths generalizing seen with
  | nil => exact List.Pairwise.nil
  | cons x rest ih =>
    have hlater {p q : String} (hq : q ≠ x) (h : ∃ u v, rest = u ++ p :: v ∧ q ∉ u) :
        ∃ u v, x :: rest = u ++ p :: v ∧ q ∉ u := by
      obtain ⟨u, v, rfl, hu⟩ := h
      exact ⟨x :: u, v, rfl, by simp [hq, hu]⟩
    rw [scan.firsts]
    split
    · rename_i hx
      refine (ih seen).imp_of_mem fun _ hq => hlater ?_
      rintro rfl
      exact (mem_firsts.mp hq).2 (List.contains_iff_mem.mp hx)
    · refine List.pairwise_cons.mpr ⟨fun q _ => ⟨[], rest, rfl, List.not_mem_nil⟩, ?_⟩
      refine (ih (x :: seen)).imp_of_mem fun _ hq => hlater ?_
      rintro rfl
      exact (mem_firsts.mp hq).2 List.mem_cons_self

theorem firsts_append (seen paths more : List String) :
    ∃ seen', scan.firsts seen (paths ++ more) = scan.firsts seen paths ++ scan.firsts seen' more ∧
      ∀ p, p ∈ seen' ↔ p ∈ paths ∨ p ∈ seen := by
  induction paths generalizing seen with
  | nil => exact ⟨seen, rfl, by simp⟩
  | cons x rest ih =>
    rw [List.cons_append, scan.firsts, scan.firsts]
    split
    · rename_i hx
      obtain ⟨seen', heq, hmem⟩ := ih seen
      refine ⟨seen', heq, fun p => ?_⟩
      have := List.contains_iff_mem.mp hx
      rw [hmem, List.mem_cons]
      constructor
      · tauto
      · rintro ((rfl | h) | h)
        · exact .inr this
        · exact .inl h
        · exact .inr h
    · obtain ⟨seen', heq, hmem⟩ := ih (x :: seen)
      refine ⟨seen', by rw [heq, List.cons_append], fun p => ?_⟩
      rw [hmem, List.mem_cons, List.mem_cons]
      tauto

/-! ### Order -/

/-- The paths are in the order of their first places. -/
def Ordered (places : String → Set ℕ) (paths : List String) : Prop :=
  paths.Pairwise fun p q => ∃ i j, IsLeast (places p) i ∧ IsLeast (places q) j ∧ i < j

/-- The places of the sightings that come down to a path. -/
def placesIn (sightings : List Sighting) (path : String) : Set ℕ :=
  {i | ∃ a ∈ sightings, a.position = i ∧ a.name = path}

def names (sightings : List Sighting) : List String := (sightings.map Sighting.name).filter (· != "")

theorem mem_names {sightings : List Sighting} {path : String} :
    path ∈ names sightings ↔ path ≠ "" ∧ (placesIn sightings path).Nonempty := by
  simp only [names, List.mem_filter, List.mem_map, bne_iff_ne, placesIn, Set.Nonempty, Set.mem_ofPred_eq]
  constructor
  · rintro ⟨⟨a, ha, rfl⟩, hne⟩
    exact ⟨hne, _, a, ha, rfl, rfl⟩
  · rintro ⟨hne, _, a, ha, -, rfl⟩
    exact ⟨⟨a, ha, rfl⟩, hne⟩

theorem isLeast_sInf {places : Set ℕ} (h : places.Nonempty) : IsLeast places (sInf places) :=
  ⟨Nat.sInf_mem h, fun _ => Nat.sInf_le⟩

theorem ordered_firsts {sightings : List Sighting} (h : sightings.Pairwise Sighting.IsBefore) (seen : List String) :
    Ordered (placesIn sightings) (scan.firsts seen (names sightings)) := by
  have hdiffer := nodup_firsts seen (names sightings)
  refine ((pairwise_firsts seen (names sightings)).and hdiffer).imp_of_mem fun {p q} hp hq h => ?_
  obtain ⟨⟨u, v, hsplit, hu⟩, hpq⟩ := h
  obtain ⟨hne, hplaces⟩ := mem_names.mp (mem_firsts.mp hp).1
  obtain ⟨hne', hplaces'⟩ := mem_names.mp (mem_firsts.mp hq).1
  refine ⟨_, _, isLeast_sInf hplaces, isLeast_sInf hplaces', ?_⟩
  -- The sighting from which the first comes is before all that come down to the later path.
  rw [names, List.filter_map] at hsplit
  obtain ⟨early, late, hsightings, rfl, hlate⟩ := List.map_eq_append_iff.mp hsplit
  obtain ⟨a, late, rfl, rfl, rfl⟩ := List.map_eq_cons_iff.mp hlate
  obtain ⟨b, hb, hposition, rfl⟩ := Nat.sInf_mem hplaces'
  have hlate : b ∈ late := by
    have hmem : b ∈ early ++ a :: late := hsightings ▸ List.mem_filter.mpr ⟨hb, by simpa using hne'⟩
    rcases List.mem_append.mp hmem with hearly | hmem
    · exact absurd (List.mem_map_of_mem hearly) hu
    · exact (List.mem_cons.mp hmem).resolve_left fun heq => hpq (heq ▸ rfl)
  have hbefore : a.IsBefore b := by
    have hsorted := h.filter fun a => a.name != ""
    rw [show (fun a : Sighting => a.name != "") = (· != "") ∘ Sighting.name from rfl, hsightings] at hsorted
    exact (List.pairwise_cons.mp (List.pairwise_append.mp hsorted).2.1).1 b hlate
  have hnonempty {a : Sighting} (hne : a.name ≠ "") : a.path.chars ≠ [] := by
    rintro heq
    rw [Sighting.name, heq] at hne
    exact hne rfl
  have hlt := hbefore (hnonempty hne) (hnonempty hne') fun heq => hpq (congrArg tidy heq)
  have hleast : sInf (placesIn sightings a.name) ≤ a.position := by
    refine Nat.sInf_le ⟨a, ?_, rfl, rfl⟩
    have hmem : a ∈ early ++ a :: late := by simp
    exact (List.mem_filter.mp (hsightings ▸ hmem)).1
  omega

/-! ### Tidy paths -/

/-- So many double colons. -/
def colons (k : Nat) : List Char := (List.replicate k [':', ':']).flatten

theorem exists_dropColons (cs : List Char) : ∃ k, cs = colons k ++ dropColons cs := by
  fun_induction dropColons cs with
  | case1 rest ih =>
    obtain ⟨k, hk⟩ := ih
    exact ⟨k + 1, congrArg (':' :: ':' :: ·) hk⟩
  | case2 cs h => exact ⟨0, rfl⟩

theorem reverse_colons (k : Nat) : (colons k).reverse = colons k := by
  simp [colons, List.reverse_flatten]

/-- A tidy path is what is left without the double colons at the end. -/
theorem exists_tidy (path : List Char) : ∃ k, trimChars path = (tidy path).toList ++ colons k := by
  obtain ⟨k, hk⟩ := exists_dropColons (trimChars path).reverse
  refine ⟨k, ?_⟩
  rw [tidy, String.toList_ofList, ← reverse_colons k, ← List.reverse_append, ← hk, List.reverse_reverse]

/-- A tidy path has no white space around it, but for what stood before double colons. -/
theorem trim_tidy (path : List Char) :
    trim (tidy path) = tidy path ∨ ∃ k, trimChars path = (tidy path).toList ++ colons (k + 1) := by
  obtain ⟨k, hk⟩ := exists_tidy path
  cases k with
  | zero =>
    left
    have hwhole : (tidy path).toList = trimChars path := by rw [hk]; simp [colons]
    rw [trim, hwhole, trimChars_trimChars, ← hwhole, String.ofList_toList]
  | succ k => exact .inr ⟨k, hk⟩

theorem trim_tidy_of_forall {path : List Char} (h : ∀ c ∈ path, isSpace c = false) : trim (tidy path) = tidy path := by
  obtain ⟨k, hk⟩ := exists_tidy path
  rw [trimChars_of_forall h] at hk
  have hblack : ∀ c ∈ (tidy path).toList, isSpace c = false := fun c hc => h c (hk ▸ List.mem_append_left _ hc)
  rw [trim, trimChars_of_forall hblack, String.ofList_toList]

theorem not_isSpace_of {ok : Char → Bool} (h : ∀ n ∈ spaceCodes, ok (Char.ofNat n) = false) (c : Char)
    (hc : ok c = true) : (!isSpace c) = true := by
  rw [Bool.not_eq_true', ← Bool.not_eq_true]
  intro hspace
  rw [of_isSpace (P := fun c => ok c = false) h hspace] at hc
  cases hc

/-- The languages that have paths in quotes, where any characters may stand. -/
def quoting : List Language := [.typeScript, .javaScript, .go]

theorem capturesWithin_statements {language : Language} (h : language ∉ quoting) :
    ∀ p ∈ statements language, CapturesWithin (fun c => !isSpace c) p := by
  have hdotted (c : Char) (hc : dottedChar c = true) : (!isSpace c) = true := by rw [isSpace_of_dottedChar hc]; rfl
  cases language with
  | rust =>
    refine List.forall_mem_singleton.mpr ⟨capturesWithin_of_silent rfl, ?_, ?_⟩
    · exact not_isSpace_of (by decide)
    · exact not_isSpace_of (by decide)
  | python =>
    refine List.forall_mem_cons.mpr ⟨?_, List.forall_mem_singleton.mpr ?_⟩
    · exact ⟨⟨⟨⟨capturesWithin_of_silent rfl, hdotted, hdotted⟩, trivial, trivial⟩, capturesWithin_of_silent rfl⟩,
        trivial⟩
    · exact ⟨capturesWithin_of_silent rfl, hdotted, hdotted⟩
  | java =>
    refine List.forall_mem_singleton.mpr ⟨⟨⟨capturesWithin_of_silent rfl, ?_⟩, trivial⟩, capturesWithin_of_silent rfl⟩
    exact ⟨⟨hdotted, hdotted⟩, within_exactly rfl, trivial⟩
  | typeScript | javaScript | go => exact absurd (by decide) h
  | c | cpp | cSharp | other => exact fun _ hp => absurd hp List.not_mem_nil

/-! ### Captures -/

/-- A path is captured, by a match that begins at a place: by a statement, or, in Go,
between the parentheses of a block. -/
inductive Captures (language : Language) (text : List Char) : (inBlock : Bool) → ℕ → List Char → Prop
  | statement {p : Pattern} {m : Match} {s : Span} (known : p ∈ statements language) (found : m ∈ p.findAll text)
      (captured : m.captured = some s) : Captures language text false m.whole.start s.chars
  | block {b : Span} {m : Match} {s : Span} (known : language = .go) (opened : b ∈ goBlock.capturedAll text)
      (found : m ∈ doubleQuoted.findAll b.chars) (captured : m.captured = some s) :
      Captures language text true (b.start + m.whole.start) s.chars

/-- Where the matches begin that capture a path, outside of blocks or in them. -/
def places (language : Language) (text : String) (inBlock : Bool) (path : String) : Set ℕ :=
  {i | ∃ cs, Captures language text.toList inBlock i cs ∧ tidy cs = path}

/-- Where the matches begin that capture a path. -/
def positions (language : Language) (text : String) (path : String) : Set ℕ :=
  {i | ∃ inBlock, i ∈ places language text inBlock path}

variable {language : Language}

/-- The sightings outside of blocks, or those in them. -/
def sightingsOf (language : Language) (text : List Char) (inBlock : Bool) : List Sighting :=
  if inBlock then inside language text else outside language text

theorem captures_iff {inBlock : Bool} {cs : List Char} :
    Captures language text inBlock i cs ↔
      ∃ a ∈ sightingsOf language text inBlock, a.position = i ∧ a.path.chars = cs := by
  have houtside (a : Sighting) : a ∈ outside language text ↔ ∃ p ∈ statements language, a ∈ sightings p text := by
    rw [← List.mem_flatMap]
    cases language with
    | python | typeScript | javaScript => exact List.mem_mergeSort
    | _ => rfl
  constructor
  · intro h
    cases h with
    | @statement p m s known found captured =>
      exact ⟨⟨_, s⟩, (houtside _).mpr ⟨p, known, mem_sightings.mpr ⟨m, found, rfl, captured⟩⟩, rfl, rfl⟩
    | @block b m s known opened found captured =>
      refine ⟨⟨_, s⟩, ?_, rfl, rfl⟩
      rw [sightingsOf, if_pos rfl, inside, if_pos known]
      refine List.mem_flatMap.mpr ⟨b, opened, List.mem_map.mpr ⟨⟨m.whole.start, s⟩, ?_, rfl⟩⟩
      exact mem_sightings.mpr ⟨m, found, rfl, captured⟩
  · rintro ⟨a, hmem, rfl, rfl⟩
    cases inBlock with
    | false =>
      obtain ⟨p, known, ha⟩ := (houtside a).mp hmem
      obtain ⟨m, found, hstart, captured⟩ := mem_sightings.mp ha
      exact hstart ▸ .statement known found captured
    | true =>
      rw [sightingsOf, if_pos rfl, inside] at hmem
      split at hmem
      · rename_i known
        obtain ⟨b, opened, hmem⟩ := List.mem_flatMap.mp hmem
        obtain ⟨a, ha, rfl⟩ := List.mem_map.mp hmem
        obtain ⟨m, found, hstart, captured⟩ := mem_sightings.mp ha
        exact hstart ▸ .block known opened found captured
      · cases hmem

theorem pairwise_sightingsOf (language : Language) (text : List Char) (inBlock : Bool) :
    (sightingsOf language text inBlock).Pairwise Sighting.IsBefore := by
  cases inBlock with
  | false => exact pairwise_outside language text
  | true => exact pairwise_inside language text

theorem placesIn_sightingsOf (language : Language) (text : String) (inBlock : Bool) :
    placesIn (sightingsOf language text.toList inBlock) = places language text inBlock := by
  funext path
  ext i
  constructor
  · rintro ⟨a, ha, hposition, hname⟩
    exact ⟨_, captures_iff.mpr ⟨a, ha, hposition, rfl⟩, hname⟩
  · rintro ⟨cs, hcaptures, rfl⟩
    obtain ⟨a, ha, hposition, rfl⟩ := captures_iff.mp hcaptures
    exact ⟨a, ha, hposition, rfl⟩

/-! ### Scans -/

theorem scan_eq (language : Language) (text : String) :
    scan language text = scan.firsts []
      (names (sightingsOf language text.toList false) ++ names (sightingsOf language text.toList true)) := by
  rw [scan, found_eq, List.map_map, names, names, ← List.filter_append, ← List.map_append]
  rfl

theorem positions_eq_places (h : language ≠ .go) (text : String) :
    positions language text = places language text false := by
  funext path
  ext i
  constructor
  · rintro ⟨_ | _, cs, hcaptures, hpath⟩
    · exact ⟨cs, hcaptures, hpath⟩
    · cases hcaptures with
      | block known => exact absurd known h
  · exact fun hplace => ⟨false, hplace⟩

theorem mem_scan {text : String} {path : String} :
    path ∈ scan language text ↔ path ≠ "" ∧ (positions language text path).Nonempty := by
  rw [scan_eq, mem_firsts, List.mem_append, mem_names, mem_names, placesIn_sightingsOf, placesIn_sightingsOf]
  simp only [List.not_mem_nil, not_false_eq_true, and_true, ← and_or_left]
  refine and_congr_right fun _ => ?_
  constructor
  · rintro (⟨i, hplace⟩ | ⟨i, hplace⟩)
    · exact ⟨i, false, hplace⟩
    · exact ⟨i, true, hplace⟩
  · rintro ⟨i, _ | _, hplace⟩
    · exact .inl ⟨i, hplace⟩
    · exact .inr ⟨i, hplace⟩

/-- What stands outside of blocks is listed first, and then what stands only in them. -/
theorem exists_scan_eq_append (language : Language) (text : String) :
    ∃ singles blocks, scan language text = singles ++ blocks ∧
      Ordered (places language text false) singles ∧ Ordered (places language text true) blocks ∧
      (∀ path ∈ singles, (places language text false path).Nonempty) ∧
      ∀ path ∈ blocks, places language text false path = ∅ := by
  obtain ⟨known, hsplit, hknown⟩ :=
    firsts_append [] (names (sightingsOf language text.toList false)) (names (sightingsOf language text.toList true))
  refine ⟨_, _, (scan_eq language text).trans hsplit, ?_, ?_, fun path hpath => ?_, fun path hpath => ?_⟩
  · exact placesIn_sightingsOf language text false ▸ ordered_firsts (pairwise_sightingsOf ..) _
  · exact placesIn_sightingsOf language text true ▸ ordered_firsts (pairwise_sightingsOf ..) _
  · exact placesIn_sightingsOf language text false ▸ (mem_names.mp (mem_firsts.mp hpath).1).2
  · obtain ⟨hmem, hnew⟩ := mem_firsts.mp hpath
    by_contra hplaces
    rw [← Ne, ← Set.nonempty_iff_ne_empty, ← placesIn_sightingsOf] at hplaces
    exact hnew ((hknown path).mpr (.inl (mem_names.mpr ⟨(mem_names.mp hmem).1, hplaces⟩)))

theorem ordered_scan (h : language ≠ .go) (text : String) : Ordered (positions language text) (scan language text) := by
  obtain ⟨singles, blocks, heq, hsingles, -, -, hblocks⟩ := exists_scan_eq_append language text
  have hempty : blocks = [] := by
    refine List.eq_nil_iff_forall_not_mem.mpr fun path hpath => ?_
    have hlisted := (mem_scan.mp (heq ▸ List.mem_append_right _ hpath)).2
    rw [positions_eq_places h, hblocks path hpath] at hlisted
    exact Set.not_nonempty_empty hlisted
  rwa [positions_eq_places h, heq, hempty, List.append_nil]

theorem trim_of_mem_scan {text : String} {path : String} (h : path ∈ scan language text) :
    trim path = path ∨ language ∈ quoting ∧
      ∃ inBlock i cs k, Captures language text.toList inBlock i cs ∧ trimChars cs = path.toList ++ colons (k + 1) := by
  obtain ⟨i, inBlock, cs, hcaptures, rfl⟩ := (mem_scan.mp h).2
  by_cases hquoting : language ∈ quoting
  · exact (trim_tidy cs).imp_right fun ⟨k, hk⟩ => ⟨hquoting, inBlock, i, cs, k, hcaptures, hk⟩
  · left
    cases hcaptures with
    | statement known found captured =>
      refine trim_tidy_of_forall fun c hc => ?_
      have hblack := (reads_of_mem found).1.captured_ok (capturesWithin_statements hquoting _ known) captured c hc
      simpa using hblack
    | block known => exact absurd (known ▸ by decide) hquoting

/-- A scan lists the paths that are captured, each once, without the empty path. They are
in the order of the first matches that capture them, but that in Go the paths outside of
blocks come before all that stand only in blocks. A path has no white space around it,
unless it stands in quotes and the white space is before double colons at its end. -/
theorem scan_lists_imports (language : Language) (text : String) :
    (scan language text).Nodup ∧
      (∀ path, path ∈ scan language text ↔ path ≠ "" ∧ (positions language text path).Nonempty) ∧
      (∀ path ∈ scan language text, trim path = path ∨ language ∈ quoting ∧
        ∃ inBlock i cs k, Captures language text.toList inBlock i cs ∧ trimChars cs = path.toList ++ colons (k + 1)) ∧
      (language ≠ .go → Ordered (positions language text) (scan language text)) ∧
      ∃ singles blocks, scan language text = singles ++ blocks ∧
        Ordered (places language text false) singles ∧ Ordered (places language text true) blocks ∧
        (∀ path ∈ singles, (places language text false path).Nonempty) ∧
        ∀ path ∈ blocks, places language text false path = ∅ :=
  ⟨nodup_firsts _ _, fun _ => mem_scan, fun _ => trim_of_mem_scan, fun h => ordered_scan h text,
    exists_scan_eq_append language text⟩

/-- In Go an import that stands alone is listed before the paths of a block above it, and a
path in quotes keeps the white space that stood before its double colons. -/
theorem block_is_listed_last :
    let text := "import (\n\t\"b\"\n)\n\nimport \"a\"\n"
    scan .go text = ["a", "b"] ∧ ¬Ordered (positions .go text) (scan .go text) ∧
      scan .typeScript "require('a ::')" = ["a "] ∧ trim "a " ≠ "a " := by
  intro text
  have hscan : scan .go text = ["a", "b"] := by decide +kernel
  refine ⟨hscan, fun hordered => ?_, by decide +kernel, by decide +kernel⟩
  rw [hscan] at hordered
  obtain ⟨i, j, ⟨⟨inBlock, hi⟩, -⟩, ⟨-, hleast⟩, hlt⟩ := (List.pairwise_cons.mp hordered).1 "b" List.mem_cons_self
  have hb : 10 ∈ placesIn (sightingsOf .go text.toList true) "b" := by
    show ∃ a ∈ sightingsOf .go text.toList true, a.position = 10 ∧ a.name = "b"
    decide +kernel
  have ha : ∀ inBlock, ∀ a ∈ sightingsOf .go text.toList inBlock, a.name = "a" → 16 ≤ a.position := by
    decide +kernel
  rw [placesIn_sightingsOf] at hb
  rw [← placesIn_sightingsOf] at hi
  obtain ⟨a, hmem, rfl, hname⟩ := hi
  have hlow := ha inBlock a hmem hname
  have hhigh := hleast ⟨true, hb⟩
  omega

end CodeAtlas.Imports
