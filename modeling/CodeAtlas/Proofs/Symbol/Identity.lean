import CodeAtlas.Proofs.Graph.Parts
import CodeAtlas.Proofs.Symbol.Ingestion

/-! Which symbols share an id.

The parts of an id are written with colons between them, and a file, a container or a
name may have colons of its own. So an id tells the kind and the pieces between the
colons, but not where one part ends and the next one begins: symbols are the same if
their ids are and their containers and their names have as many colons, and ingestion
passes over what differs from an earlier entry only in where the container ends
(`ids_tell_pieces`). -/
namespace CodeAtlas

/-! ### The pieces of a text -/

/-- What stands before, between and behind the colons of a text. -/
def pieces (text : String) : List (List Char) := text.toList.splitOn ':'

@[simp] theorem pieces_colon (a b : String) : pieces (a ++ ":" ++ b) = pieces a ++ pieces b := by
  have hcolon : (a ++ ":" ++ b).toList = a.toList ++ ':' :: b.toList := by simp
  rw [pieces, hcolon, List.splitOn_append_cons_self]
  rfl

theorem pieces_injective : Function.Injective pieces := by
  intro a b h
  have hjoined := congrArg [':'].intercalate h
  rw [pieces, pieces, List.intercalate_splitOn, List.intercalate_splitOn] at hjoined
  exact String.toList_injective hjoined

theorem pieces_eq_pieces {a b : String} : pieces a = pieces b ↔ a = b := pieces_injective.eq_iff

namespace SymbolKind

theorem name_injective : Function.Injective name := by
  intro a b h
  cases a <;> cases b <;> first | rfl | exact absurd h (by decide)

theorem pieces_name (kind : SymbolKind) : pieces kind.name = [kind.name.toList] := by
  cases kind <;> decide

end SymbolKind

/-! ### Ids -/

namespace Symbol

theorem pieces_idOf (uri : String) (container : Option String) (name : String) (kind : SymbolKind) :
    pieces (idOf uri container name kind) =
      pieces uri ++ pieces (container.getD "") ++ pieces name ++ [kind.name.toList] := by
  rw [idOf, pieces_colon, pieces_colon, pieces_colon, SymbolKind.pieces_name]

variable {uri uri' name name' : String} {container container' : Option String} {kind kind' : SymbolKind}

/-- An id tells the kind, and the pieces of file, container and name one after the other. -/
theorem idOf_eq_idOf : idOf uri container name kind = idOf uri' container' name' kind' ↔
    kind = kind' ∧ pieces uri ++ pieces (container.getD "") ++ pieces name =
      pieces uri' ++ pieces (container'.getD "") ++ pieces name' := by
  rw [← pieces_eq_pieces, pieces_idOf, pieces_idOf]
  constructor
  · intro h
    obtain ⟨hparts, hkind⟩ := List.append_inj' h rfl
    exact ⟨SymbolKind.name_injective (String.toList_injective (List.singleton_inj.mp hkind)), hparts⟩
  · rintro ⟨rfl, hparts⟩
    rw [hparts]

/-- With as many colons in the containers and in the names, all parts can be told from an id. -/
theorem same_of_idOf (h : idOf uri container name kind = idOf uri' container' name' kind')
    (hcontainer : (pieces (container.getD "")).length = (pieces (container'.getD "")).length)
    (hname : (pieces name).length = (pieces name').length) :
    uri = uri' ∧ container.getD "" = container'.getD "" ∧ name = name' ∧ kind = kind' := by
  obtain ⟨hkind, hparts⟩ := idOf_eq_idOf.mp h
  obtain ⟨hparts, hnames⟩ := List.append_inj' hparts hname
  obtain ⟨huris, hcontainers⟩ := List.append_inj' hparts hcontainer
  exact ⟨pieces_injective huris, pieces_injective hcontainers, pieces_injective hnames, hkind⟩

/-- What an id tells of a symbol of a known file. -/
def telling (s : Symbol) : SymbolKind × List (List Char) :=
  (s.kind, pieces (s.containerName.getD "") ++ pieces s.name)

theorem telling_eq_telling {s t : Symbol} (hs : s.id = idOf uri s.containerName s.name s.kind)
    (ht : t.id = idOf uri t.containerName t.name t.kind) : s.id = t.id ↔ s.telling = t.telling := by
  rw [hs, ht, idOf_eq_idOf, List.append_assoc, List.append_assoc, List.append_cancel_left_eq, telling, telling,
    Prod.mk.injEq]

end Symbol

/-! ### Firsts -/

/-- Two keys that tell the same elements apart have the same firsts. -/
theorem firstsBy_go_congr {α β γ : Type} [BEq β] [LawfulBEq β] [BEq γ] [LawfulBEq γ] {key : α → β} {key' : α → γ}
    {xs seen : List α} (h : ∀ x ∈ seen ++ xs, ∀ y ∈ seen ++ xs, key x = key y ↔ key' x = key' y) :
    firstsBy.go key (seen.map key) xs = firstsBy.go key' (seen.map key') xs := by
  induction xs generalizing seen with
  | nil => rfl
  | cons x xs ih =>
    have hseen : (seen.map key).contains (key x) = (seen.map key').contains (key' x) := by
      rw [Bool.eq_iff_iff, List.contains_iff_mem, List.contains_iff_mem, List.mem_map, List.mem_map]
      refine exists_congr fun y => and_congr_right fun hy => ?_
      exact h y (List.mem_append_left _ hy) x (by simp)
    have hrest : ∀ seen' ⊆ x :: seen, firstsBy.go key (seen'.map key) xs = firstsBy.go key' (seen'.map key') xs := by
      intro seen' hsub
      have hmem : ∀ y ∈ seen' ++ xs, y ∈ seen ++ x :: xs := by
        intro y hy
        rcases List.mem_append.mp hy with hy | hy
        · rcases List.mem_cons.mp (hsub hy) with rfl | hy <;> simp [*]
        · simp [hy]
      exact ih fun y hy z hz => h y (hmem y hy) z (hmem z hz)
    rw [firstsBy.go, firstsBy.go, hseen]
    split
    · exact hrest seen (List.subset_cons_self x seen)
    · exact congrArg (x :: ·) (hrest (x :: seen) (List.Subset.refl _))

theorem firstsBy_congr {α β γ : Type} [BEq β] [LawfulBEq β] [BEq γ] [LawfulBEq γ] {key : α → β} {key' : α → γ}
    {xs : List α} (h : ∀ x ∈ xs, ∀ y ∈ xs, key x = key y ↔ key' x = key' y) : firstsBy key xs = firstsBy key' xs :=
  @firstsBy_go_congr _ _ _ _ _ _ _ key key' xs [] h

/-! ### Ingestion -/

namespace RawSymbol

mutual

/-- The symbols that an entry and the entries inside it stand for, parents first. -/
def symbols (uri : String) (parent : Option String) : RawSymbol → List Symbol
  | ⟨name, kind, range, selection, detail, containerName, modifiers, tags, documentation, children⟩ =>
    let entry : RawSymbol :=
      ⟨name, kind, range, selection, detail, containerName, modifiers, tags, documentation, []⟩
    let container := containerName.or parent
    match entry.validate uri container with
    | .ok s => s :: symbolsOfAll uri (some s.name) children
    | .error _ => symbolsOfAll uri container children

def symbolsOfAll (uri : String) (parent : Option String) : List RawSymbol → List Symbol
  | [] => []
  | s :: rest => symbols uri parent s ++ symbolsOfAll uri parent rest

end

theorem id_of_validate {uri : String} {container : Option String} {raw : RawSymbol} {s : Symbol}
    (h : raw.validate uri container = .ok s) : s.id = Symbol.idOf uri s.containerName s.name s.kind := by
  obtain ⟨kind, rfl⟩ := eq_of_validate h
  rfl

mutual

/-- Every symbol has the id of its file, container, name and kind. -/
theorem id_of_mem_symbols {uri : String} {s : Symbol} (parent : Option String) (raw : RawSymbol)
    (h : s ∈ symbols uri parent raw) : s.id = Symbol.idOf uri s.containerName s.name s.kind := by
  obtain ⟨name, kind, range, selection, detail, containerName, modifiers, tags, documentation, children⟩ := raw
  rw [symbols] at h
  split at h
  · rename_i hentry
    rcases List.mem_cons.mp h with rfl | h
    · exact id_of_validate hentry
    · exact id_of_mem_symbolsOfAll _ children h
  · exact id_of_mem_symbolsOfAll _ children h

theorem id_of_mem_symbolsOfAll {uri : String} {s : Symbol} (parent : Option String) (raw : List RawSymbol)
    (h : s ∈ symbolsOfAll uri parent raw) : s.id = Symbol.idOf uri s.containerName s.name s.kind := by
  cases raw with
  | nil => cases h
  | cons first rest =>
    rcases List.mem_append.mp h with h | h
    · exact id_of_mem_symbols parent first h
    · exact id_of_mem_symbolsOfAll parent rest h

end

end RawSymbol

namespace Ingested

/-- One more symbol, unless its id is taken. -/
def keep (kept : List Symbol) (s : Symbol) : List Symbol :=
  if kept.any (·.id == s.id) then kept else kept ++ [s]

theorem symbols_accept (out : Ingested) (s : Symbol) : (out.accept s).symbols = keep out.symbols s := by
  rw [accept, holds, keep]
  split <;> rfl

mutual

theorem symbols_visit (uri : String) (parent : Option String) (out : Ingested) (raw : RawSymbol) :
    (visit uri parent out raw).symbols = (raw.symbols uri parent).foldl keep out.symbols := by
  obtain ⟨name, kind, range, selection, detail, containerName, modifiers, tags, documentation, children⟩ := raw
  rw [visit, RawSymbol.symbols]
  generalize RawSymbol.validate uri (containerName.or parent) _ = answer
  cases answer with
  | ok s =>
    dsimp only
    rw [symbols_visitAll, symbols_accept, List.foldl_cons]
  | error err =>
    dsimp only
    rw [symbols_visitAll]
    rfl

theorem symbols_visitAll (uri : String) (parent : Option String) (out : Ingested) (raw : List RawSymbol) :
    (visitAll uri parent out raw).symbols = (RawSymbol.symbolsOfAll uri parent raw).foldl keep out.symbols := by
  cases raw with
  | nil => rfl
  | cons first rest =>
    rw [visitAll, RawSymbol.symbolsOfAll, List.foldl_append, symbols_visitAll, symbols_visit]

end

/-- What was kept before counts as seen. -/
theorem foldl_keep {seen : List String} {kept xs : List Symbol} (h : ∀ id, id ∈ seen ↔ id ∈ kept.map Symbol.id) :
    xs.foldl keep kept = kept ++ firstsBy.go Symbol.id seen xs := by
  induction xs generalizing seen kept with
  | nil => exact (List.append_nil kept).symm
  | cons x xs ih =>
    have hholds : kept.any (·.id == x.id) = seen.contains x.id := by
      rw [Bool.eq_iff_iff, List.contains_iff_mem, h, List.any_eq_true, List.mem_map]
      simp only [beq_iff_eq]
    rw [List.foldl_cons, firstsBy.go, keep, hholds]
    split
    · exact ih h
    · have hseen : ∀ id, id ∈ x.id :: seen ↔ id ∈ (kept ++ [x]).map Symbol.id := by
        intro id
        rw [List.mem_cons, h]
        simp [or_comm]
      rw [ih hseen, List.append_assoc]
      rfl

end Ingested

theorem symbols_ingest (uri : String) (raw : List RawSymbol) :
    (ingest uri raw).symbols = firstsBy Symbol.id (RawSymbol.symbolsOfAll uri none raw) := by
  have hnone : ∀ id, id ∈ ([] : List String) ↔ id ∈ (([] : List Symbol).map Symbol.id) := fun _ => Iff.rfl
  rw [ingest, Ingested.symbols_visitAll, Ingested.foldl_keep hnone]
  rfl

/-- Ids are the same exactly if the kinds are, and the pieces of file, container and name
one after the other; with as many colons in the containers and in the names all parts are
the same then. Ingestion keeps the first of the entries with one kind and with the same
pieces of container and name. -/
theorem ids_tell_pieces (uri : String) (container : Option String) (name : String) (kind : SymbolKind)
    (uri' : String) (container' : Option String) (name' : String) (kind' : SymbolKind) (raw : List RawSymbol) :
    (Symbol.idOf uri container name kind = Symbol.idOf uri' container' name' kind' ↔
      kind = kind' ∧ pieces uri ++ pieces (container.getD "") ++ pieces name =
        pieces uri' ++ pieces (container'.getD "") ++ pieces name') ∧
    (Symbol.idOf uri container name kind = Symbol.idOf uri' container' name' kind' →
      (pieces (container.getD "")).length = (pieces (container'.getD "")).length →
      (pieces name).length = (pieces name').length →
      uri = uri' ∧ container.getD "" = container'.getD "" ∧ name = name' ∧ kind = kind') ∧
    (ingest uri raw).symbols = firstsBy Symbol.telling (RawSymbol.symbolsOfAll uri none raw) := by
  refine ⟨Symbol.idOf_eq_idOf, Symbol.same_of_idOf, ?_⟩
  rw [symbols_ingest]
  refine firstsBy_congr fun s hs t ht => ?_
  exact Symbol.telling_eq_telling (RawSymbol.id_of_mem_symbolsOfAll none raw hs)
    (RawSymbol.id_of_mem_symbolsOfAll none raw ht)

/-- No container and an empty one are the same in an id. -/
theorem absent_container_is_empty :
    let uri := "file:///repo/src/a.rs"
    Symbol.idOf uri none "f" .function = Symbol.idOf uri (some "") "f" .function ∧
      (pieces ((none : Option String).getD "")).length = (pieces ((some "").getD "")).length ∧
      (none : Option String).getD "" = (some "").getD "" := by
  intro uri
  have hid : Symbol.idOf uri none "f" .function = Symbol.idOf uri (some "") "f" .function := rfl
  have hcolons : (pieces ((none : Option String).getD "")).length = (pieces ((some "").getD "")).length := rfl
  obtain ⟨-, hsame, -⟩ := ids_tell_pieces uri none "f" .function uri (some "") "f" .function []
  exact ⟨hid, hcolons, (hsame hid hcolons rfl).2.1⟩

/-- Two functions of one file, `c` inside `a:b` and `b:c` inside `a`. -/
def shiftedColons : List RawSymbol :=
  [{ name := "c", kind := .name "function", range := ⟨⟨0, 0⟩, ⟨1, 0⟩⟩, containerName := some "a:b" },
    { name := "b:c", kind := .name "function", range := ⟨⟨2, 0⟩, ⟨3, 0⟩⟩, containerName := some "a" }]

/-- Functions of one name in two files have one id, and of two different functions of one
file the second is passed over. -/
theorem shifted_colons_collide :
    Symbol.idOf "file:///repo/a" (some "b:") "f" .function = Symbol.idOf "file:///repo/a:b" none "f" .function ∧
      "file:///repo/a" ≠ "file:///repo/a:b" ∧
      (RawSymbol.symbolsOfAll "file:///repo/src/lib.rs" none shiftedColons).map (fun s => (s.containerName, s.name)) =
        [(some "a:b", "c"), (some "a", "b:c")] ∧
      (ingest "file:///repo/src/lib.rs" shiftedColons).symbols.map (fun s => (s.containerName, s.name)) =
        [(some "a:b", "c")] := by
  decide +kernel

end CodeAtlas
