import CodeAtlas.Proofs.Symbol.Ingestion
import Mathlib.Data.List.Basic

/-! Ingestion, entry by entry.

The entries of a forest are its trees and the children of entries (`RawEntry.IsIn`), each
in a place of its own. Ingestion goes through them in the order of their places, parents
before children and all that is inside an entry before the next one, and takes them in one
by one (`ingest_eq_foldl`). So every entry has a fate that follows from the entry itself,
from what it is inside of and from the symbols that were emitted before it (`IsSettled`):
it is put aside if it is malformed, passed over if its id is taken, and emitted otherwise. -/
namespace CodeAtlas

/-! ### Entries -/

/-- An entry of a forest of raw symbols. -/
structure RawEntry where
  /-- Which tree, then which child of its root, and so on. -/
  place : List Nat
  raw : RawSymbol
  /-- What the entry is inside of, the nearest first. -/
  above : List RawSymbol

namespace RawEntry

/-- The entries of a forest are its trees and the children of entries. -/
inductive IsIn (forest : List RawSymbol) : RawEntry → Prop
  | tree {i : Nat} {raw : RawSymbol} (found : forest[i]? = some raw) : IsIn forest ⟨[i], raw, []⟩
  | child {place : List Nat} {parent : RawSymbol} {above : List RawSymbol} {i : Nat} {raw : RawSymbol}
    (inside : IsIn forest ⟨place, parent, above⟩) (found : parent.children[i]? = some raw) :
    IsIn forest ⟨place ++ [i], raw, parent :: above⟩

mutual

/-- An entry and those inside it, parents first. -/
def preorder (place : List Nat) (above : List RawSymbol) : RawSymbol → List RawEntry
  | ⟨name, kind, range, selection, detail, containerName, modifiers, tags, documentation, children⟩ =>
    let raw : RawSymbol :=
      ⟨name, kind, range, selection, detail, containerName, modifiers, tags, documentation, children⟩
    ⟨place, raw, above⟩ :: preorderOfAll place (raw :: above) 0 children

/-- The same for trees side by side, the first of which is number `n`. -/
def preorderOfAll (place : List Nat) (above : List RawSymbol) (n : Nat) : List RawSymbol → List RawEntry
  | [] => []
  | raw :: rest => preorder (place ++ [n]) above raw ++ preorderOfAll place above (n + 1) rest

end

theorem preorder_eq (place : List Nat) (above : List RawSymbol) (raw : RawSymbol) :
    preorder place above raw = ⟨place, raw, above⟩ :: preorderOfAll place (raw :: above) 0 raw.children := by
  obtain ⟨name, kind, range, selection, detail, containerName, modifiers, tags, documentation, children⟩ := raw
  rw [preorder]

/-- All entries of a forest. -/
def all (forest : List RawSymbol) : List RawEntry := preorderOfAll [] [] 0 forest

/-! ### Every entry, once -/

section
variable {forest rest : List RawSymbol} {place : List Nat} {raw : RawSymbol} {above : List RawSymbol} {n : Nat}
  {e : RawEntry}

theorem preorder_subset_of_getElem? {i : Nat} (h : rest[i]? = some raw) :
    preorder (place ++ [n + i]) above raw ⊆ preorderOfAll place above n rest := by
  induction rest generalizing n i with
  | nil => cases h
  | cons first rest ih =>
    rw [preorderOfAll]
    cases i with
    | zero =>
      obtain rfl : first = raw := Option.some.inj h
      exact List.subset_append_left _ _
    | succ i =>
      have hrest : preorder (place ++ [n + 1 + i]) above raw ⊆ preorderOfAll place above (n + 1) rest := ih h
      rw [Nat.add_right_comm] at hrest
      exact List.Subset.trans hrest (List.subset_append_right _ _)

end

mutual

theorem isIn_of_mem_preorder {forest : List RawSymbol} {e : RawEntry} (place : List Nat) (above : List RawSymbol)
    (raw : RawSymbol) (h : IsIn forest ⟨place, raw, above⟩) (he : e ∈ preorder place above raw) : IsIn forest e := by
  obtain ⟨name, kind, range, selection, detail, containerName, modifiers, tags, documentation, children⟩ := raw
  rw [preorder] at he
  rcases List.mem_cons.mp he with rfl | he
  · exact h
  · refine isIn_of_mem_preorderOfAll place _ 0 children (fun i child hi => ?_) he
    rw [Nat.zero_add]
    exact .child h hi

theorem isIn_of_mem_preorderOfAll {forest : List RawSymbol} {e : RawEntry} (place : List Nat) (above : List RawSymbol)
    (n : Nat) (trees : List RawSymbol)
    (h : ∀ (i : Nat) (raw : RawSymbol), trees[i]? = some raw → IsIn forest ⟨place ++ [n + i], raw, above⟩)
    (he : e ∈ preorderOfAll place above n trees) : IsIn forest e := by
  cases trees with
  | nil => cases he
  | cons first rest =>
    rw [preorderOfAll] at he
    rcases List.mem_append.mp he with he | he
    · exact isIn_of_mem_preorder _ above first (h 0 first rfl) he
    · refine isIn_of_mem_preorderOfAll place above (n + 1) rest (fun i raw hi => ?_) he
      rw [Nat.add_right_comm]
      exact h (i + 1) raw hi

end

mutual

/-- Where an entry is, its children are. -/
theorem child_mem_preorder {parent child : RawSymbol} {p : List Nat} {a : List RawSymbol} {i : Nat}
    (hc : parent.children[i]? = some child) (place : List Nat) (above : List RawSymbol) (raw : RawSymbol)
    (h : ⟨p, parent, a⟩ ∈ preorder place above raw) : ⟨p ++ [i], child, parent :: a⟩ ∈ preorder place above raw := by
  obtain ⟨name, kind, range, selection, detail, containerName, modifiers, tags, documentation, children⟩ := raw
  rw [preorder] at h ⊢
  refine List.mem_cons_of_mem _ ?_
  rcases List.mem_cons.mp h with h | h
  · obtain ⟨rfl, rfl, rfl⟩ := RawEntry.mk.inj h
    refine preorder_subset_of_getElem? hc ?_
    rw [Nat.zero_add, preorder_eq]
    exact List.mem_cons_self
  · exact child_mem_preorderOfAll hc place _ 0 children h

theorem child_mem_preorderOfAll {parent child : RawSymbol} {p : List Nat} {a : List RawSymbol} {i : Nat}
    (hc : parent.children[i]? = some child) (place : List Nat) (above : List RawSymbol) (n : Nat)
    (trees : List RawSymbol) (h : ⟨p, parent, a⟩ ∈ preorderOfAll place above n trees) :
    ⟨p ++ [i], child, parent :: a⟩ ∈ preorderOfAll place above n trees := by
  cases trees with
  | nil => cases h
  | cons first rest =>
    rw [preorderOfAll] at h ⊢
    rcases List.mem_append.mp h with h | h
    · exact List.mem_append_left _ (child_mem_preorder hc _ above first h)
    · exact List.mem_append_right _ (child_mem_preorderOfAll hc place above (n + 1) rest h)

end

theorem mem_all_iff {forest : List RawSymbol} {e : RawEntry} : e ∈ all forest ↔ e.IsIn forest := by
  constructor
  · intro he
    refine isIn_of_mem_preorderOfAll [] [] 0 forest (fun i raw hi => ?_) he
    rw [Nat.zero_add]
    exact .tree hi
  · intro he
    induction he with
    | tree found =>
      refine preorder_subset_of_getElem? found ?_
      rw [Nat.zero_add, preorder_eq]
      exact List.mem_cons_self
    | child _ found ih => exact child_mem_preorderOfAll found [] [] 0 forest ih

/-! ### The order of places -/

mutual

theorem place_of_mem_preorder {e : RawEntry} (place : List Nat) (above : List RawSymbol) (raw : RawSymbol)
    (he : e ∈ preorder place above raw) : place <+: e.place := by
  obtain ⟨name, kind, range, selection, detail, containerName, modifiers, tags, documentation, children⟩ := raw
  rw [preorder] at he
  rcases List.mem_cons.mp he with rfl | he
  · exact List.prefix_rfl
  · obtain ⟨i, -, hi⟩ := place_of_mem_preorderOfAll place _ 0 children he
    exact (List.prefix_append place [i]).trans hi

theorem place_of_mem_preorderOfAll {e : RawEntry} (place : List Nat) (above : List RawSymbol) (n : Nat)
    (trees : List RawSymbol) (he : e ∈ preorderOfAll place above n trees) :
    ∃ i, n ≤ i ∧ place ++ [i] <+: e.place := by
  cases trees with
  | nil => cases he
  | cons first rest =>
    rw [preorderOfAll] at he
    rcases List.mem_append.mp he with he | he
    · exact ⟨n, Nat.le_refl n, place_of_mem_preorder _ above first he⟩
    · obtain ⟨i, hn, hi⟩ := place_of_mem_preorderOfAll place above (n + 1) rest he
      exact ⟨i, Nat.le_of_succ_le hn, hi⟩

end

/-- What is inside an entry comes after it. -/
theorem lt_of_child_prefix {place q : List Nat} {i : Nat} (h : place ++ [i] <+: q) : place < q := by
  obtain ⟨rest, rfl⟩ := h
  have hlonger : place ++ [] < place ++ ([i] ++ rest) := List.append_left_lt (List.nil_lt_cons i rest)
  rwa [List.append_nil, ← List.append_assoc] at hlonger

/-- What is inside an entry comes before what is inside a later one. -/
theorem lt_of_child_lt {place p q : List Nat} {i j : Nat} (hij : i < j) (hp : place ++ [i] <+: p)
    (hq : place ++ [j] <+: q) : p < q := by
  obtain ⟨rest, rfl⟩ := hp
  obtain ⟨rest', rfl⟩ := hq
  rw [List.append_assoc, List.append_assoc]
  exact List.append_left_lt (List.cons_lt_cons_iff.mpr (.inl hij))

mutual

theorem places_preorder (place : List Nat) (above : List RawSymbol) (raw : RawSymbol) :
    (preorder place above raw).Pairwise fun a b => a.place < b.place := by
  obtain ⟨name, kind, range, selection, detail, containerName, modifiers, tags, documentation, children⟩ := raw
  rw [preorder]
  refine List.pairwise_cons.mpr ⟨fun e he => ?_, places_preorderOfAll place _ 0 children⟩
  obtain ⟨i, -, hi⟩ := place_of_mem_preorderOfAll place _ 0 children he
  exact lt_of_child_prefix hi

theorem places_preorderOfAll (place : List Nat) (above : List RawSymbol) (n : Nat) (trees : List RawSymbol) :
    (preorderOfAll place above n trees).Pairwise fun a b => a.place < b.place := by
  cases trees with
  | nil => exact .nil
  | cons first rest =>
    rw [preorderOfAll]
    refine List.pairwise_append.mpr
      ⟨places_preorder _ above first, places_preorderOfAll place above (n + 1) rest, fun a ha b hb => ?_⟩
    obtain ⟨i, hn, hi⟩ := place_of_mem_preorderOfAll place above (n + 1) rest hb
    exact lt_of_child_lt hn (place_of_mem_preorder _ above first ha) hi

end

end RawEntry

/-! ### What an entry stands for -/

namespace RawSymbol

/-- The container of what is inside these, the nearest first: the name of the nearest, or
the container which that one would have had. -/
def containerIn : List RawSymbol → Option String
  | [] => none
  | parent :: above =>
    if parent.isMalformed then parent.containerName.or (containerIn above) else some (Text.trim parent.name)

end RawSymbol

/-- The container of an entry: its own, or that of what it is inside of. -/
def RawEntry.container (e : RawEntry) : Option String := e.raw.containerName.or (RawSymbol.containerIn e.above)

/-- The symbol is that of the entry. -/
structure Symbol.StandsFor (uri : String) (e : RawEntry) (s : Symbol) : Prop where
  name : s.name = Text.trim e.raw.name
  kind : e.raw.kind.resolve = .ok s.kind
  location : s.location = ⟨uri, e.raw.range⟩
  container : s.containerName = e.container
  id : s.id = Symbol.idOf uri e.container s.name s.kind
  language : s.language = Language.ofUri uri
  metadata : s.metadata = e.raw.metadata

/-! ### One entry after the other -/

namespace Ingested

/-- Take in one entry. -/
def take (uri : String) (out : Ingested) (e : RawEntry) : Ingested :=
  match e.raw.validate uri e.container with
  | .ok s => out.accept s
  | .error err => out.reject err

/-- An entry is validated without its children. -/
theorem visit_eq (uri : String) (parent : Option String) (out : Ingested) (raw : RawSymbol) :
    visit uri parent out raw =
      match raw.validate uri (raw.containerName.or parent) with
      | .ok s => visitAll uri (some s.name) (out.accept s) raw.children
      | .error e => visitAll uri (raw.containerName.or parent) (out.reject e) raw.children := by
  obtain ⟨name, kind, range, selection, detail, containerName, modifiers, tags, documentation, children⟩ := raw
  rw [visit]
  rfl

/-- An entry is taken in, and passes on a container to what is inside it. -/
theorem visit_eq_visitAll (uri : String) (place : List Nat) (above : List RawSymbol) (out : Ingested)
    (raw : RawSymbol) :
    visit uri (RawSymbol.containerIn above) out raw =
      visitAll uri (RawSymbol.containerIn (raw :: above)) (out.take uri ⟨place, raw, above⟩) raw.children := by
  rw [visit_eq, take, RawEntry.container, RawSymbol.containerIn]
  rcases RawSymbol.validate_cases uri (raw.containerName.or (RawSymbol.containerIn above)) raw with
    ⟨hbad, reason, hvalid⟩ | ⟨hgood, kind, -, hvalid⟩
  · rw [hvalid, if_pos hbad]
  · rw [hvalid, hgood]
    rfl

mutual

theorem visit_eq_foldl (uri : String) (place : List Nat) (above : List RawSymbol) (out : Ingested) (raw : RawSymbol) :
    visit uri (RawSymbol.containerIn above) out raw = (RawEntry.preorder place above raw).foldl (take uri) out := by
  obtain ⟨name, kind, range, selection, detail, containerName, modifiers, tags, documentation, children⟩ := raw
  rw [visit_eq_visitAll uri place, RawEntry.preorder_eq, List.foldl_cons]
  exact visitAll_eq_foldl uri place _ 0 _ children

theorem visitAll_eq_foldl (uri : String) (place : List Nat) (above : List RawSymbol) (n : Nat) (out : Ingested)
    (trees : List RawSymbol) :
    visitAll uri (RawSymbol.containerIn above) out trees =
      (RawEntry.preorderOfAll place above n trees).foldl (take uri) out := by
  cases trees with
  | nil => rfl
  | cons first rest =>
    rw [visitAll, RawEntry.preorderOfAll, List.foldl_append, ← visit_eq_foldl uri (place ++ [n]) above out first,
      ← visitAll_eq_foldl uri place above (n + 1) _ rest]

end

end Ingested

theorem ingest_eq_foldl (uri : String) (raw : List RawSymbol) :
    ingest uri raw = (RawEntry.all raw).foldl (Ingested.take uri) {} :=
  Ingested.visitAll_eq_foldl uri [] [] 0 {} raw

/-! ### Fates -/

/-- What becomes of an entry. -/
inductive Fate where
  | emitted (s : Symbol)
  | skipped (s : Symbol)
  | quarantined (e : AtlasError)

namespace Fate

def emitted? : Fate → Option Symbol
  | emitted s => some s
  | _ => none

def skipped? : Fate → Option Symbol
  | skipped s => some s
  | _ => none

def error? : Fate → Option AtlasError
  | quarantined e => some e
  | _ => none

end Fate

/-- An entry that was visited, and what became of it. -/
structure Visit where
  entry : RawEntry
  fate : Fate

namespace Visit

/-- The symbols that were emitted during some visits. -/
def emitted (visits : List Visit) : List Symbol := visits.filterMap (·.fate.emitted?)

/-- The symbols that were passed over. -/
def skipped (visits : List Visit) : List Symbol := visits.filterMap (·.fate.skipped?)

/-- Why entries were put aside. -/
def errors (visits : List Visit) : List AtlasError := visits.filterMap (·.fate.error?)

/-- Every entry has one fate. -/
theorem length_fates (visits : List Visit) :
    (emitted visits).length + (skipped visits).length + (errors visits).length = visits.length := by
  unfold emitted skipped errors
  induction visits with
  | nil => rfl
  | cons v rest ih =>
    obtain ⟨entry, fate⟩ := v
    rw [List.length_cons, ← ih]
    cases fate <;> simp only [List.filterMap_cons, Fate.emitted?, Fate.skipped?, Fate.error?, List.length_cons] <;> omega

/-- What became of an entry follows from the entry and from the symbols emitted before. -/
structure IsSettled (uri : String) (before : List Symbol) (v : Visit) : Prop where
  quarantined : (∃ e, v.fate = .quarantined e) ↔ v.entry.raw.isMalformed = true
  error : ∀ e, v.fate = .quarantined e → v.entry.raw.validate uri v.entry.container = .error e
  symbol : ∀ s, v.fate = .emitted s ∨ v.fate = .skipped s → s.StandsFor uri v.entry
  emitted : ∀ s, v.fate = .emitted s → s.id ∉ before.map Symbol.id
  skipped : ∀ s, v.fate = .skipped s → s.id ∈ before.map Symbol.id

end Visit

namespace Ingested

/-- What becomes of the next entry. -/
def fate (uri : String) (out : Ingested) (e : RawEntry) : Fate :=
  match e.raw.validate uri e.container with
  | .ok s => if out.holds s.id then .skipped s else .emitted s
  | .error err => .quarantined err

/-- How entries are visited one after the other. -/
def visits (uri : String) (out : Ingested) : List RawEntry → List Visit
  | [] => []
  | e :: rest => ⟨e, out.fate uri e⟩ :: visits uri (out.take uri e) rest

variable {uri : String} {out : Ingested} {e : RawEntry} {entries : List RawEntry}

/-- An entry is put aside, or it stands for a symbol that is taken in if it is new. -/
theorem take_cases (uri : String) (out : Ingested) (e : RawEntry) :
    (∃ err, e.raw.isMalformed = true ∧ e.raw.validate uri e.container = .error err ∧
      out.fate uri e = .quarantined err ∧ out.take uri e = out.reject err) ∨
    (∃ s : Symbol, e.raw.isMalformed = false ∧ s.StandsFor uri e ∧ s.id ∈ out.symbols.map Symbol.id ∧
      out.fate uri e = .skipped s ∧ out.take uri e = out) ∨
    (∃ s : Symbol, e.raw.isMalformed = false ∧ s.StandsFor uri e ∧ s.id ∉ out.symbols.map Symbol.id ∧
      out.fate uri e = .emitted s ∧ out.take uri e = { out with symbols := out.symbols ++ [s] }) := by
  unfold fate take
  rcases RawSymbol.validate_cases uri e.container e.raw with ⟨hbad, reason, hvalid⟩ | ⟨hgood, kind, hkind, hvalid⟩
  · rw [hvalid]
    exact .inl ⟨_, hbad, rfl, rfl, rfl⟩
  · rw [hvalid]
    refine .inr ?_
    have hstands : Symbol.StandsFor uri e
        { Symbol.ofParts (Text.trim e.raw.name) kind ⟨uri, e.raw.range⟩ e.container with metadata := e.raw.metadata } :=
      ⟨rfl, hkind, rfl, rfl, rfl, rfl, rfl⟩
    generalize { Symbol.ofParts (Text.trim e.raw.name) kind ⟨uri, e.raw.range⟩ e.container with
      metadata := e.raw.metadata } = s at hstands
    dsimp only
    unfold accept
    by_cases hid : out.holds s.id = true
    · rw [if_pos hid, if_pos hid]
      exact .inl ⟨s, hgood, hstands, holds_iff.mp hid, rfl, rfl⟩
    · rw [if_neg hid, if_neg hid]
      exact .inr ⟨s, hgood, hstands, fun h => hid (holds_iff.mpr h), rfl, rfl⟩

theorem symbols_take : (out.take uri e).symbols = out.symbols ++ (out.fate uri e).emitted?.toList := by
  rcases take_cases uri out e with ⟨err, -, -, hfate, htake⟩ | ⟨s, -, -, -, hfate, htake⟩ | ⟨s, -, -, -, hfate, htake⟩ <;>
    rw [hfate, htake] <;> simp [Fate.emitted?, reject]

theorem quarantined_take : (out.take uri e).quarantined = out.quarantined ++ (out.fate uri e).error?.toList := by
  rcases take_cases uri out e with ⟨err, -, -, hfate, htake⟩ | ⟨s, -, -, -, hfate, htake⟩ | ⟨s, -, -, -, hfate, htake⟩ <;>
    rw [hfate, htake] <;> simp [Fate.error?, reject]

theorem isSettled_fate : Visit.IsSettled uri out.symbols ⟨e, out.fate uri e⟩ := by
  rcases take_cases uri out e with ⟨err, hbad, herr, hfate, -⟩ | ⟨s, hgood, hs, hid, hfate, -⟩ |
    ⟨s, hgood, hs, hid, hfate, -⟩
  · constructor <;> simp [hfate, hbad, herr]
  · constructor <;> simp [hfate, hgood, hs, List.mem_map.mp hid]
  · constructor <;> simp [hfate, hgood, hs, hid, -List.mem_map]

theorem map_visits (uri : String) (out : Ingested) (entries : List RawEntry) :
    (visits uri out entries).map Visit.entry = entries := by
  induction entries generalizing out with
  | nil => rfl
  | cons e rest ih => rw [visits, List.map_cons, ih]

theorem symbols_foldl : (entries.foldl (take uri) out).symbols = out.symbols ++ Visit.emitted (visits uri out entries) := by
  induction entries generalizing out with
  | nil => exact (List.append_nil _).symm
  | cons e rest ih =>
    rw [List.foldl_cons, ih, symbols_take, List.append_assoc, visits, Visit.emitted, Visit.emitted, List.filterMap_cons]
    cases (out.fate uri e).emitted? <;> rfl

theorem quarantined_foldl :
    (entries.foldl (take uri) out).quarantined = out.quarantined ++ Visit.errors (visits uri out entries) := by
  induction entries generalizing out with
  | nil => exact (List.append_nil _).symm
  | cons e rest ih =>
    rw [List.foldl_cons, ih, quarantined_take, List.append_assoc, visits, Visit.errors, Visit.errors, List.filterMap_cons]
    cases (out.fate uri e).error? <;> rfl

/-- Every visit is settled by what was emitted before it. -/
theorem isSettled_visits {before after : List Visit} {v : Visit} (h : visits uri out entries = before ++ v :: after) :
    v.IsSettled uri (out.symbols ++ Visit.emitted before) := by
  induction entries generalizing out before with
  | nil => simp [visits] at h
  | cons e rest ih =>
    rw [visits] at h
    cases before with
    | nil =>
      obtain ⟨rfl, -⟩ := List.cons.inj h
      rw [Visit.emitted, List.filterMap_nil, List.append_nil]
      exact isSettled_fate
    | cons first before =>
      obtain ⟨rfl, hrest⟩ := List.cons.inj h
      have hsettled := ih hrest
      rw [symbols_take, List.append_assoc] at hsettled
      rw [Visit.emitted, List.filterMap_cons]
      cases hfate : (out.fate uri e).emitted? <;> rw [hfate] at hsettled <;> exact hsettled

end Ingested

/-- Whatever the file and the forest: ingestion visits every entry of the forest once,
parents before children and what is inside an entry before the next one. What is taken in
and what is put aside comes of the visits, in their order: an entry is put aside exactly if
it is malformed, passed over exactly if a symbol emitted before has the id of its own, and
otherwise its symbol is emitted, with its own container or that of what it is inside of. So
the three numbers add up to that of the entries, and no id is emitted twice. -/
theorem every_entry_is_settled (uri : String) (forest : List RawSymbol) :
    let out := ingest uri forest
    ∃ visits : List Visit,
      ((visits.map Visit.entry).map RawEntry.place).Pairwise (· < ·) ∧
      (∀ e, e ∈ visits.map Visit.entry ↔ e.IsIn forest) ∧
      (∀ before v after, visits = before ++ v :: after → v.IsSettled uri (Visit.emitted before)) ∧
      out.symbols = Visit.emitted visits ∧ out.quarantined = Visit.errors visits ∧
      out.symbols.length + (Visit.skipped visits).length + out.quarantined.length = visits.length ∧
      (out.symbols.map Symbol.id).Nodup := by
  intro out
  have hentries := Ingested.map_visits uri {} (RawEntry.all forest)
  have hsymbols : out.symbols = Visit.emitted (Ingested.visits uri {} (RawEntry.all forest)) := by
    rw [show out = _ from ingest_eq_foldl uri forest, Ingested.symbols_foldl]
    rfl
  have hquarantined : out.quarantined = Visit.errors (Ingested.visits uri {} (RawEntry.all forest)) := by
    rw [show out = _ from ingest_eq_foldl uri forest, Ingested.quarantined_foldl]
    rfl
  refine ⟨Ingested.visits uri {} (RawEntry.all forest), ?_, fun e => ?_, fun before v after h => ?_, hsymbols,
    hquarantined, ?_, (ingest_ofFile uri forest).distinct⟩
  · rw [hentries, List.pairwise_map]
    exact RawEntry.places_preorderOfAll [] [] 0 forest
  · rw [hentries]
    exact RawEntry.mem_all_iff
  · exact Ingested.isSettled_visits h
  · rw [hsymbols, hquarantined]
    exact Visit.length_fates _

end CodeAtlas
