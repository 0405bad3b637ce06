import CodeAtlas.Proofs.Query.PhraseWords

/-! Other paths in path phrases.

With another path in its path phrase a text still has the phrase, with that path
(`captured?_withPath`), and the kinds, modifiers and names are read from the text without
the path. Relationship phrases are read from the whole text, but those that begin before
the path end before it, and those that begin after it do not see it
(`map_captured?_withPath`). So only a relationship phrase that begins in the path itself
can make the path more than a path (`path_contributes_only_itself`). -/
namespace CodeAtlas.Phrase
open Text Text.Pattern Text.Cursor

variable {c d : Cursor} {text path after spaces : List Char}

/-! ### Another path -/

/-- A text with another path at the place of one. -/
def withPath (text : List Char) (s : Span) (path : List Char) : List Char :=
  text.take s.start ++ (path ++ text.drop s.stop)

theorem drop_stop (lead path after : List Char) :
    (lead ++ (path ++ after)).drop (Span.stop ⟨lead.length, path⟩) = after := by
  rw [Span.stop, ← List.drop_drop, List.drop_left, List.drop_left]

theorem withPath_eq (lead path after q : List Char) :
    withPath (lead ++ (path ++ after)) ⟨lead.length, path⟩ q = lead ++ (q ++ after) := by
  rw [withPath, drop_stop, List.take_left]

theorem without_eq (lead path after : List Char) :
    without (lead ++ (path ++ after)) (some ⟨lead.length, path⟩) = lead ++ after := by
  rw [without, drop_stop, List.take_left]

/-- The phrase opens in the same way with another path. -/
theorem OpensFirst.withPath {i : Nat} (h : OpensFirst text i spaces path after) {q : List Char} (hq : IsPath q) :
    OpensFirst (withPath text ⟨i + 2 + spaces.length, path⟩ q) i spaces q after := by
  obtain ⟨start, x, y, rfl, hi, hn, rfl⟩ := h.split
  obtain ⟨hboundary, -, hne, hspaces, -, hends⟩ := h.opens
  rw [lead_append, ← length_lead start x y, withPath_eq, ← lead_append]
  refine ⟨⟨?_, ⟨x, y, ?_, hi, hn⟩, hne, hspaces, hq, hends⟩, fun j hj => ?_⟩
  · have hlength := length_lead start x y spaces
    have hagree : Agree ((start ++ x :: y :: spaces).length - start.length)
        ((ofText ((start ++ x :: y :: spaces) ++ (path ++ after))).skip start.length)
        ((ofText ((start ++ x :: y :: spaces) ++ (q ++ after))).skip start.length) := agree_append (by omega)
    rw [← lead_append, ← lead_append] at hagree
    rw [← hagree.atBoundary (by omega), hboundary]
  · rw [rest_at, List.drop_left]
  · rw [← heard_eq_none_iff, ← heard_inPath_before hn hne hspaces hj, heard_eq_none_iff]
    exact h.first j hj

/-! ### Relationship phrases -/

/-- After a path the character before the place does not matter, since no word begins there. -/
theorem heard_after_path {p : Pattern} (hp : BeginsWithin pathChar p) (hc : c.rest = after) (hd : d.rest = after)
    (hends : ∀ x ∈ after.head?, pathChar x = false) (i : Nat) : heard p (c.skip i) = heard p (d.skip i) := by
  have hsilent {c : Cursor} (hc : c.rest = after) : heard p c = none := by
    rw [heard_eq_none_iff, Option.eq_none_iff_forall_ne_some]
    intro m hm
    obtain ⟨n, hreads, -⟩ := exists_reads_of_matchAt? hm
    obtain ⟨x, rest, hrest, hx⟩ := hreads.begins hp
    rw [hends x (by rw [← hc, hrest]; rfl)] at hx
    cases hx
  cases i with
  | zero => rw [skip_zero, skip_zero, hsilent hc, hsilent hd]
  | succ i =>
    cases after with
    | nil =>
      rw [skip_of_rest_nil hc, skip_of_rest_nil hd, hsilent hc, hsilent hd]
    | cons x more =>
      have hagree : Agree (i + (more.length + 1)) (c.advance x more) (d.advance x more) := ⟨rfl, rfl⟩
      rw [skip_succ hc, skip_succ hd]
      refine heard_congr (hagree.skip (Nat.le_add_right ..)) fun n hn => ?_
      have hle : n ≤ ((c.advance x more).skip i).rest.length := hn.le
      rw [rest_skip, List.length_drop] at hle
      have hmore : (c.advance x more).rest.length = more.length := rfl
      omega

/-- The places of a text are those before a stretch, those in it, and those from its end on. -/
theorem map_captured?_of_stretch {p : Pattern} {lead path after : List Char}
    (hfree : ∀ i < path.length, heard p ((ofText (lead ++ (path ++ after))).skip (lead.length + i)) = none) :
    (p.captured? (lead ++ (path ++ after))).map Span.chars =
      (((List.range lead.length).findSome? fun i => heard p ((ofText (lead ++ (path ++ after))).skip i)).or
        ((List.range (after.length + 1)).findSome? fun i =>
          heard p (((ofText (lead ++ (path ++ after))).skip (lead.length + path.length)).skip i))).join := by
  have hlength : (lead ++ (path ++ after)).length + 1 = lead.length + (path.length + (after.length + 1)) := by
    simp only [List.length_append]
    omega
  have hpath : (List.range path.length).findSome?
      ((fun i => heard p ((ofText (lead ++ (path ++ after))).skip i)) ∘ (lead.length + ·)) = none :=
    List.findSome?_eq_none_iff.mpr fun i hi => hfree i (List.mem_range.mp hi)
  rw [map_captured?, hlength, List.range_add, List.findSome?_append, List.findSome?_map, List.range_add,
    List.findSome?_append, hpath, Option.none_or, List.findSome?_map]
  simp only [Function.comp_def, skip_skip, Nat.add_assoc]

/-- What stands before the path is the same for every path, and heard in the same way. -/
theorem OpensFirst.exists_lead {i : Nat} (h : OpensFirst text i spaces path after) :
    ∃ lead, lead.length = i + 2 + spaces.length ∧ lead ≠ [] ∧ text = lead ++ (path ++ after) ∧
      (∀ q, Phrase.withPath text ⟨i + 2 + spaces.length, path⟩ q = lead ++ (q ++ after)) ∧
      ∀ p, keepsOff letterN whiteSpace p true = true → ∀ j < lead.length, ∀ rest rest',
        heard p ((ofText (lead ++ rest)).skip j) = heard p ((ofText (lead ++ rest')).skip j) := by
  obtain ⟨start, x, y, rfl, -, hn, rfl⟩ := h.split
  obtain ⟨-, -, hne, hspaces, -, -⟩ := h.opens
  refine ⟨start ++ x :: y :: spaces, length_lead .., by simp, lead_append .., fun q => ?_,
    fun p hp j hj rest rest' => ?_⟩
  · rw [lead_append, ← length_lead start x y, withPath_eq]
  · rw [← lead_append, ← lead_append]
    exact heard_before_path hn hne hspaces hp (length_lead start x y spaces ▸ hj)

/-- A phrase that does not begin in the path is read alike with every path. -/
theorem map_captured?_withPath {i : Nat} (h : OpensFirst text i spaces path after) {p : Pattern}
    (hp : p ∈ relationPatterns) {q q' : List Char}
    (hfree : NoneBegins (withPath text ⟨i + 2 + spaces.length, path⟩ q) ⟨i + 2 + spaces.length, q⟩)
    (hfree' : NoneBegins (withPath text ⟨i + 2 + spaces.length, path⟩ q') ⟨i + 2 + spaces.length, q'⟩) :
    (p.captured? (withPath text ⟨i + 2 + spaces.length, path⟩ q)).map Span.chars =
      (p.captured? (withPath text ⟨i + 2 + spaces.length, path⟩ q')).map Span.chars := by
  obtain ⟨lead, hlength, -, -, hwith, hheard⟩ := h.exists_lead
  rw [← hlength] at hfree hfree' hwith ⊢
  rw [hwith] at hfree hfree' ⊢
  rw [hwith, map_captured?_of_stretch fun j hj => heard_eq_none_iff.mpr (hfree p hp j hj),
    map_captured?_of_stretch fun j hj => heard_eq_none_iff.mpr (hfree' p hp j hj)]
  have hrest (q : List Char) : ((ofText (lead ++ (q ++ after))).skip (lead.length + q.length)).rest = after := by
    rw [rest_at, ← List.drop_drop, List.drop_left, List.drop_left]
  have hbefore : ((List.range lead.length).findSome? fun j => heard p ((ofText (lead ++ (q ++ after))).skip j)) =
      (List.range lead.length).findSome? fun j => heard p ((ofText (lead ++ (q' ++ after))).skip j) :=
    findSome?_congr fun j hj => hheard p (keepsOff_relationPatterns p hp) j (List.mem_range.mp hj) _ _
  have hafter (j : Nat) := heard_after_path (begins_relationPatterns p hp) (hrest q) (hrest q') h.opens.ends j
  simp only [hbefore, hafter]

theorem relationshipQuery?_congr {text text' : List Char}
    (h : ∀ p ∈ relationPatterns, (p.captured? text).map Span.chars = (p.captured? text').map Span.chars) :
    relationshipQuery? text = relationshipQuery? text' := by
  have hsame {p : Pattern} (hp : p ∈ relationPatterns) :
      (p.captured? text).map Span.text = (p.captured? text').map Span.text := by
    have := congrArg (Option.map String.ofList) (h p hp)
    rwa [Option.map_map, Option.map_map] at this
  have hform (text : List Char) : relationshipQuery? text =
      (((calls.captured? text).map Span.text).map (reverseLookup · [.calls])).or
        ((((«extends».captured? text).map Span.text).map (reverseLookup · [.extends, .inherits])).or
          (((implements.captured? text).map Span.text).map (reverseLookup · [.implements]))) := by
    rw [relationshipQuery?]
    cases calls.captured? text <;> cases «extends».captured? text <;> simp [Function.comp_def]
  rw [hform, hform, hsame (by simp [relationPatterns]), hsame (p := «extends») (by simp [relationPatterns]),
    hsame (p := implements) (by simp [relationPatterns])]

/-! ### Conditions -/

/-- Two queries that have the same parts, but each its own path. -/
def SameButPath (path path' : List Char) (a b : GraphQuery) : Prop :=
  ∃ (query : GraphQuery) (filter : QueryFilter),
    a = { query with filter := some { filter with path := some (String.ofList path) } } ∧
    b = { query with filter := some { filter with path := some (String.ofList path') } }

theorem captured?_withPath {i : Nat} (h : OpensFirst text i spaces path after) {q : List Char} (hq : IsPath q) :
    inPath.captured? (withPath text ⟨i + 2 + spaces.length, path⟩ q) = some ⟨i + 2 + spaces.length, q⟩ :=
  captured?_inPath_iff.mpr ⟨i, spaces, q, after, h.withPath hq, rfl⟩

/-- What is selected by a text, but for a path. -/
def selection (rest : List Char) : GraphQuery :=
  match named.captured? rest with
  | some s => GraphQuery.ofPatterns [s.text]
  | none => GraphQuery.ofPatterns ["*"]

/-- The conditions of a text, but for a path. -/
def conditions (rest : List Char) : QueryFilter where
  kinds := if (kinds rest).isEmpty then none else some (kinds rest)
  isExported := if exported.occurs rest then some true else none
  isDeprecated := if deprecated.occurs rest then some true else none

/-- A path phrase adds its path to what the text says without the path. -/
theorem filterQuery_of_captured {s : Span} (h : inPath.captured? text = some s) : filterQuery text =
    { selection (without text (some s)) with
      filter := some { conditions (without text (some s)) with path := some s.text } } := by
  have hset : ({ conditions (without text (some s)) with path := some s.text } : QueryFilter).isEmpty = false := by
    refine beq_eq_false_iff_ne.mpr fun heq => ?_
    cases congrArg QueryFilter.path heq
  rw [conditions] at hset
  rw [selection, conditions, filterQuery, h]
  simp only [Option.map_some, hset, Bool.false_eq_true, if_false]
  cases named.captured? (without text (some s)) <;> rfl

theorem without_withPath {i : Nat} (h : OpensFirst text i spaces path after) (q : List Char) :
    without (withPath text ⟨i + 2 + spaces.length, path⟩ q) (some ⟨i + 2 + spaces.length, q⟩) =
      without text (some ⟨i + 2 + spaces.length, path⟩) := by
  obtain ⟨lead, hlength, -, htext, hwith, -⟩ := h.exists_lead
  rw [hwith, ← hlength, without_eq, htext, without_eq]

/-- The conditions are the same with every path, but for the path itself. -/
theorem sameButPath_filterQuery {s : Span} (hs : inPath.captured? text = some s) {p q : List Char} (hp : IsPath p)
    (hq : IsPath q) : SameButPath p q (filterQuery (withPath text s p)) (filterQuery (withPath text s q)) := by
  obtain ⟨i, spaces, path, after, h, rfl⟩ := captured?_inPath_iff.mp hs
  rw [filterQuery_of_captured (captured?_withPath h hp), filterQuery_of_captured (captured?_withPath h hq),
    without_withPath h, without_withPath h]
  exact ⟨_, _, rfl, rfl⟩

/-! ### Translations -/

theorem withPath_self {s : Span} (hs : inPath.captured? text = some s) :
    IsPath s.chars ∧ withPath text s s.chars = text := by
  obtain ⟨i, spaces, path, after, h, rfl⟩ := captured?_inPath_iff.mp hs
  obtain ⟨lead, -, -, htext, hwith, -⟩ := h.exists_lead
  exact ⟨h.opens.path, (hwith path).trans htext.symm⟩

/-- A text that is trimmed stays so with another path. -/
theorem trimChars_withPath (htrim : trimChars text = text) {s : Span} (hs : inPath.captured? text = some s)
    {q : List Char} (hq : IsPath q) : trimChars (withPath text s q) = withPath text s q := by
  obtain ⟨i, spaces, path, after, h, rfl⟩ := captured?_inPath_iff.mp hs
  obtain ⟨lead, -, hne, htext, hwith, -⟩ := h.exists_lead
  obtain ⟨hhead, hlast⟩ := trimChars_eq_self_iff.mp (htext ▸ htrim)
  rw [hwith, trimChars_eq_self_iff]
  constructor
  · rw [List.head?_append_of_ne_nil _ hne] at hhead ⊢
    exact hhead
  · intro c hc
    cases after with
    | nil =>
      have hqne : q ≠ [] := by
        obtain ⟨x, hx, -⟩ := hq.mark
        exact List.ne_nil_of_mem hx
      rw [List.append_nil, List.getLast?_append_of_ne_nil _ hqne] at hc
      exact isSpace_of_pathChar (hq.chars c (List.mem_of_getLast? hc))
    | cons x rest =>
      refine hlast c ?_
      rw [← List.append_assoc, List.getLast?_append_of_ne_nil _ (List.cons_ne_nil x rest)] at hc ⊢
      exact hc

/-- A path phrase contributes only its path. Other paths in its place give queries with the
same conditions, and, unless a relationship phrase begins in one of the paths, translations
that are the same but for the path. No such phrase begins in a path that does not end in
one of the words. -/
theorem path_contributes_only_itself (text : String) (s : Span) (p q : List Char)
    (hs : inPath.captured? (trimChars text.toList) = some s) (hp : IsPath p) (hq : IsPath q) :
    let chars := trimChars text.toList
    (IsPath s.chars ∧ GraphQuery.ofText (String.ofList (withPath chars s s.chars)) = GraphQuery.ofText text) ∧
      SameButPath p q (filterQuery (withPath chars s p)) (filterQuery (withPath chars s q)) ∧
      ((∀ w ∈ phraseWords, ¬w <:+ p.map fold) → NoneBegins (withPath chars s p) ⟨s.start, p⟩) ∧
      (NoneBegins (withPath chars s p) ⟨s.start, p⟩ → NoneBegins (withPath chars s q) ⟨s.start, q⟩ →
        let a := GraphQuery.ofText (String.ofList (withPath chars s p))
        let b := GraphQuery.ofText (String.ofList (withPath chars s q))
        a = b ∨ SameButPath p q a b) := by
  intro chars
  have htrim : trimChars chars = chars := trimChars_trimChars text.toList
  obtain ⟨hpath, hself⟩ := withPath_self hs
  have hquery {q : List Char} (hq : IsPath q) : GraphQuery.ofText (String.ofList (withPath chars s q)) =
      (relationshipQuery? (withPath chars s q)).getD (filterQuery (withPath chars s q)) := by
    rw [GraphQuery.ofText, String.toList_ofList, trimChars_withPath htrim hs hq]
    cases relationshipQuery? (withPath chars s q) <;> rfl
  refine ⟨⟨hpath, ?_⟩, sameButPath_filterQuery hs hp hq, fun hwords => ?_, fun hfree hfree' => ?_⟩
  · rw [hself, GraphQuery.ofText, String.toList_ofList, htrim]
    rfl
  · obtain ⟨i, spaces, path, after, h, rfl⟩ := captured?_inPath_iff.mp hs
    obtain ⟨lead, hlength, -, -, hwith, -⟩ := h.exists_lead
    rw [hwith, ← hlength]
    exact noneBegins_of_not_suffix hp h.opens.ends hwords
  · intro a b
    have hrelation : relationshipQuery? (withPath chars s p) = relationshipQuery? (withPath chars s q) := by
      obtain ⟨i, spaces, path, after, h, rfl⟩ := captured?_inPath_iff.mp hs
      exact relationshipQuery?_congr fun r hr => map_captured?_withPath h hr hfree hfree'
    rw [show a = _ from hquery hp, show b = _ from hquery hq, hrelation]
    cases relationshipQuery? (withPath chars s q) with
    | some query => exact .inl rfl
    | none => exact .inr (sameButPath_filterQuery hs hp hq)

/-- Kinds in a path are not read as kinds. -/
theorem modules_stay_in_path :
    let text := " exported functions in src/module/net"
    let chars := trimChars text.toList
    let s : Span := ⟨22, "src/module/net".toList⟩
    let q := "lib/class.rs".toList
    inPath.captured? chars = some s ∧ IsPath s.chars ∧ IsPath q ∧
      NoneBegins (withPath chars s s.chars) ⟨s.start, s.chars⟩ ∧ NoneBegins (withPath chars s q) ⟨s.start, q⟩ ∧
      let a := GraphQuery.ofText (String.ofList (withPath chars s s.chars))
      let b := GraphQuery.ofText (String.ofList (withPath chars s q))
      a = b ∨ SameButPath s.chars q a b := by
  intro text chars s q
  have hs : inPath.captured? chars = some s := by decide +kernel
  have hp : IsPath s.chars := by decide +kernel
  have hq : IsPath q := by decide +kernel
  obtain ⟨-, -, hwords, hsame⟩ := path_contributes_only_itself text s s.chars q hs hp hq
  obtain ⟨-, -, hwords', -⟩ := path_contributes_only_itself text s q s.chars hs hq hp
  have hfree := hwords (by decide +kernel)
  have hfree' := hwords' (by decide +kernel)
  exact ⟨hs, hp, hq, hfree, hfree', hsame hfree hfree'⟩

/-- A path that ends in a phrase's word is read as the phrase, whose target is the word after it. -/
theorem call_in_path_is_read :
    let chars := "functions in src/call named foo".toList
    let s : Span := ⟨13, "src/call".toList⟩
    let q := "src/net".toList
    let a := GraphQuery.ofText (String.ofList (withPath chars s s.chars))
    let b := GraphQuery.ofText (String.ofList (withPath chars s q))
    inPath.capturedAll chars = [s] ∧ IsPath s.chars ∧ IsPath q ∧ a = reverseLookup "named" [.calls] ∧
      ¬(a = b ∨ SameButPath s.chars q a b) := by
  intro chars s q a b
  have ha : a = reverseLookup "named" [.calls] := by decide +kernel
  refine ⟨by decide +kernel, by decide +kernel, by decide +kernel, ha, ?_⟩
  rintro (heq | ⟨query, filter, heq, -⟩)
  · exact absurd heq (by decide +kernel)
  · cases congrArg GraphQuery.filter (ha.symm.trans heq)

end CodeAtlas.Phrase
