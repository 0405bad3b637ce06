import CodeAtlas.Index.MemoryProvider
import CodeAtlas.Proofs.Index.Requests
import CodeAtlas.Proofs.Text.Case
import CodeAtlas.Query.Search

/-! Names that are looked up against names that are scanned for.

When all patterns of a query are plain ASCII names, the symbols come from the table of
names, and otherwise from a scan of all symbols in scope. The table knows names by
their lowercase forms and the scan compares by case folding. For ASCII names the two
differ in one letter: a long s is matched by an s, but the table does not find it
(`matching_candidates`). -/
namespace CodeAtlas

namespace Query
open Text

variable {patterns : List String} {p name : String} {ns cs : List Char}

/-- A name in ASCII, without stars, and perhaps with blanks around it. -/
def IsPlain (p : String) : Prop := ∀ c ∈ (trim p).toList, c.toNat < 128 ∧ c ≠ '*'

instance (p : String) : Decidable (IsPlain p) :=
  decidable_of_iff ((trim p).toList.all fun c => c.toNat < 128 && c != '*') (by simp [IsPlain])

/-- The names that are asked for. -/
def namesOf (patterns : List String) : List String := (patterns.map trim).filter (· != "")

theorem mem_namesOf {n : String} : n ∈ namesOf patterns ↔ ∃ p ∈ patterns, trim p = n ∧ n ≠ "" := by
  simp only [namesOf, List.mem_filter, List.mem_map, bne_iff_ne]
  constructor
  · rintro ⟨⟨p, hp, rfl⟩, hne⟩
    exact ⟨p, hp, rfl, hne⟩
  · rintro ⟨p, hp, rfl, hne⟩
    exact ⟨⟨p, hp, rfl⟩, hne⟩

/-! ### Globs without stars -/

theorem tokens_plain (h : ∀ c ∈ cs, c ≠ '*') : Glob.tokens cs = cs.map GlobToken.literal := by
  induction cs with
  | nil => rfl
  | cons c rest ih =>
    rw [Glob.tokens, if_neg (by simpa using h c List.mem_cons_self), ih fun d hd => h d (List.mem_cons_of_mem c hd)]
    rfl

theorem accepts_literals :
    Glob.accepts (ns.map GlobToken.literal) cs = true ↔ List.Forall₂ (fun n c => sameFold n c = true) ns cs := by
  induction ns generalizing cs with
  | nil => cases cs <;> simp [Glob.accepts]
  | cons n ns ih => cases cs <;> simp [Glob.accepts, ih]

theorem parse?_blank (h : trim p = "") : Glob.parse? p = none := by
  have hnil : trimChars p.toList = [] := String.ofList_eq_empty_iff.mp h
  rw [Glob.parse?, hnil]

theorem parse?_plain (h : IsPlain p) (hne : trim p ≠ "") :
    Glob.parse? p = some (.pattern ((trim p).toList.map GlobToken.literal)) := by
  have htrim : (trim p).toList = trimChars p.toList := String.toList_ofList
  have hnil : trimChars p.toList ≠ [] := fun hnil => hne (by rw [trim, hnil])
  have hstar : ∀ c ∈ trimChars p.toList, c ≠ '*' := fun c hc => (h c (htrim ▸ hc)).2
  rw [htrim]
  unfold Glob.parse?
  split
  · rename_i heq
    exact absurd heq hnil
  · rename_i cs heq
    obtain ⟨c, rest, hcons⟩ := List.exists_cons_of_ne_nil hnil
    have hall : (trimChars p.toList).all (· == '*') = false := by
      have hc := hstar c (hcons ▸ List.mem_cons_self)
      simp [hcons, hc]
    rw [if_neg (by simp [hall]), tokens_plain hstar]

theorem isMatch_plain (h : ∀ p ∈ patterns, IsPlain p) :
    (GlobSet.ofPatterns patterns).isMatch name = true ↔
      ∃ n ∈ namesOf patterns, List.Forall₂ (fun a c => sameFold a c = true) n.toList name.toList := by
  simp only [GlobSet.isMatch, GlobSet.ofPatterns, List.any_eq_true, List.mem_filterMap]
  constructor
  · rintro ⟨g, ⟨p, hp, hg⟩, hmatch⟩
    by_cases hne : trim p = ""
    · rw [parse?_blank hne] at hg
      cases hg
    · rw [parse?_plain (h p hp) hne] at hg
      obtain rfl := Option.some.inj hg
      exact ⟨trim p, mem_namesOf.mpr ⟨p, hp, rfl, hne⟩, accepts_literals.mp hmatch⟩
  · rintro ⟨n, hn, hmatch⟩
    obtain ⟨p, hp, rfl, hne⟩ := mem_namesOf.mp hn
    exact ⟨_, ⟨p, hp, parse?_plain (h p hp) hne⟩, accepts_literals.mpr hmatch⟩

/-! ### Lowercase forms -/

theorem lowercase_eq_iff {n : String} (h : ∀ c ∈ n.toList, c.toNat < 128) :
    lowercase name = lowercase n ↔
      List.Forall₂ (fun a c => sameFold a c = true) n.toList name.toList ∧ longS ∉ name.toList := by
  have hforms : lowercase name = lowercase n ↔ lowercaseFrom [] name.toList = lowercaseFrom [] n.toList :=
    String.ofList_inj
  rw [hforms, lowercaseFrom_eq_iff h]

theorem isCalled_iff (h : ∀ p ∈ patterns, IsPlain p) (s : Symbol) :
    Index.isCalled (namesOf patterns) s = true ↔
      (GlobSet.ofPatterns patterns).isMatch s.name = true ∧ longS ∉ s.name.toList := by
  rw [Index.isCalled, List.contains_iff_mem, List.mem_map, isMatch_plain h, ← exists_and_right]
  refine exists_congr fun n => ?_
  rw [and_assoc]
  refine and_congr_right fun hn => ?_
  obtain ⟨p, hp, rfl, -⟩ := mem_namesOf.mp hn
  rw [eq_comm, lowercase_eq_iff fun c hc => (h p hp c hc).1]

end Query

namespace GraphQuery
open Query

variable {q : GraphQuery} {patterns : List String}

theorem literalNames?_plain (hselect : q.select.symbols = some patterns) (hplain : ∀ p ∈ patterns, IsPlain p)
    (hne : ∃ p ∈ patterns, Text.trim p ≠ "") : q.literalNames? = some (namesOf patterns) := by
  have hnames : (namesOf patterns).isEmpty = false := by
    obtain ⟨p, hp, hne⟩ := hne
    rw [List.isEmpty_eq_false_iff_exists_mem]
    exact ⟨_, mem_namesOf.mpr ⟨p, hp, rfl, hne⟩⟩
  have hliteral : ((namesOf patterns).all fun n => n.toList.all fun c => c.toNat < 128 && c != '*') = true := by
    simp only [List.all_eq_true, Bool.and_eq_true, decide_eq_true_eq, bne_iff_ne]
    intro n hn
    obtain ⟨p, hp, rfl, -⟩ := mem_namesOf.mp hn
    exact hplain p hp
  unfold literalNames?
  rw [hselect]
  show (if (!(namesOf patterns).isEmpty && (namesOf patterns).all _) = true then some (namesOf patterns) else none) = _
  rw [hnames, hliteral]
  rfl

/-- A name that matches is called by one of the names if it has no long s. -/
theorem matching_filter_isCalled (hselect : q.select.symbols = some patterns) (hplain : ∀ p ∈ patterns, IsPlain p)
    (symbols : List Symbol) : q.matching (symbols.filter (Index.isCalled (namesOf patterns))) =
      (q.matching symbols).filter fun s => !s.name.toList.contains Text.longS := by
  simp only [matching, hselect, List.filter_filter]
  refine List.filter_congr fun s _ => ?_
  rw [Bool.eq_iff_iff]
  simp only [Bool.and_eq_true, isCalled_iff hplain, Bool.not_eq_true', List.contains_eq_mem, decide_eq_false_iff_not]
  tauto

/-- What is selected among the symbols of the table is what is selected in the whole
scope, in the same order, without the names that have a long s. So the two selections
are the same as long as no symbol with such a name is selected. -/
theorem matching_candidates (moves : List (System.Move IndexCall Unit)) (q : GraphQuery) (scope : QueryScope)
    (patterns : List String) (htraverse : q.traverse = none) (hselect : q.select.symbols = some patterns)
    (hplain : ∀ p ∈ patterns, IsPlain p) (hne : ∃ p ∈ patterns, Text.trim p ≠ "") :
    let ix := (Index.history moves).state
    let looked := q.matching (q.candidates ix scope)
    let scanned := q.matching (ix.symbolsInScope scope)
    q.candidates ix scope = ix.symbolsNamed (namesOf patterns) scope ∧
      looked = scanned.filter (fun s => !s.name.toList.contains Text.longS) ∧
      (looked = scanned ↔ ∀ s ∈ scanned, Text.longS ∉ s.name.toList) := by
  intro ix looked scanned
  have hcandidates : q.candidates ix scope = ix.symbolsNamed (namesOf patterns) scope := by
    rw [candidates, htraverse, literalNames?_plain hselect hplain hne]
  have hlooked : looked = scanned.filter (fun s => !s.name.toList.contains Text.longS) := by
    show q.matching (q.candidates ix scope) = (q.matching (ix.symbolsInScope scope)).filter _
    rw [hcandidates, (Index.history_filed moves).symbolsNamed, matching_filter_isCalled hselect hplain]
  refine ⟨hcandidates, hlooked, ?_⟩
  rw [hlooked, List.filter_eq_self]
  simp

/-- One file with two functions, whose names differ in a long s. -/
def longNames : MemoryProvider :=
  let function (name : String) : RawSymbol := { name, kind := .name "function", range := default }
  ({} : MemoryProvider).addFile "file:///a.rs" [function "Set", function (String.ofList [Text.longS, 'e', 't'])] ""

/-- The file is indexed. -/
def indexed : List (System.Move IndexCall Unit) :=
  [.start (.build longNames.provider longNames.resolver .workspace), .go 0, .go 0]

/-- A name is asked for, and something blank. -/
def aName : GraphQuery := .ofPatterns [" set ", ""]

theorem plain_aName : ∀ p ∈ [" set ", ""], IsPlain p := by decide +kernel

/-- The table finds the one name. -/
theorem matching_candidates_aName :
    let ix := (Index.history indexed).state
    (aName.matching (aName.candidates ix .workspace)).map Symbol.name = ["Set"] ∧
      aName.matching (aName.candidates ix .workspace) =
        (aName.matching (ix.symbolsInScope .workspace)).filter (fun s => !s.name.toList.contains Text.longS) :=
  ⟨by decide +kernel, (matching_candidates indexed aName .workspace [" set ", ""] rfl rfl plain_aName
    ⟨" set ", List.mem_cons_self, by decide +kernel⟩).2.1⟩

/-- The scan finds the other as well. -/
theorem looked_ne_scanned :
    let ix := (Index.history indexed).state
    (∀ p ∈ [" set ", ""], IsPlain p) ∧ aName.select.symbols = some [" set ", ""] ∧ aName.traverse = none ∧
      aName.literalNames? = some ["set"] ∧
      (aName.matching (aName.candidates ix .workspace)).length = 1 ∧
      (aName.matching (ix.symbolsInScope .workspace)).length = 2 ∧
      aName.matching (aName.candidates ix .workspace) ≠ aName.matching (ix.symbolsInScope .workspace) := by
  intro ix
  have hlooked : (aName.matching (aName.candidates ix .workspace)).length = 1 := by decide +kernel
  have hscanned : (aName.matching (ix.symbolsInScope .workspace)).length = 2 := by decide +kernel
  refine ⟨plain_aName, rfl, rfl, by decide +kernel, hlooked, hscanned, fun h => ?_⟩
  rw [h, hscanned] at hlooked
  cases hlooked

end GraphQuery

end CodeAtlas
