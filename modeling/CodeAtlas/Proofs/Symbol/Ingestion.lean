import CodeAtlas.Symbol.Raw
import Mathlib.Data.List.Nodup

/-! What comes of the raw symbols of a file.

Whatever the trees, the symbols that are taken in have ids of their own and lie in the
file (`Symbol.OfFile`). -/
namespace CodeAtlas

/-- Symbols of one file, each with an id of its own. -/
structure Symbol.OfFile (uri : String) (symbols : List Symbol) : Prop where
  distinct : (symbols.map Symbol.id).Nodup
  placed : ∀ s ∈ symbols, s.location.uri = uri

theorem Symbol.ofFile_nil (uri : String) : Symbol.OfFile uri [] :=
  ⟨List.nodup_nil, fun _ h => (List.not_mem_nil h).elim⟩

namespace RawSymbol

/-- No symbol can be made of it: there is no name, no such kind, or the range ends before
it starts. -/
def isMalformed (raw : RawSymbol) : Bool :=
  (Text.trim raw.name).isEmpty || !raw.kind.resolve.isOk || raw.range.isInverted

theorem validate_cases (uri : String) (container : Option String) (raw : RawSymbol) :
    (raw.isMalformed = true ∧ ∃ reason, raw.validate uri container = .error (.malformedSymbol uri reason)) ∨
    (raw.isMalformed = false ∧ ∃ kind, raw.kind.resolve = .ok kind ∧ raw.validate uri container =
      .ok { Symbol.ofParts (Text.trim raw.name) kind ⟨uri, raw.range⟩ container with metadata := raw.metadata }) := by
  unfold isMalformed validate
  dsimp only
  cases hname : (Text.trim raw.name).isEmpty with
  | true => exact .inl ⟨rfl, _, rfl⟩
  | false =>
    cases hkind : raw.kind.resolve with
    | error err => exact .inl ⟨rfl, _, rfl⟩
    | ok kind =>
      cases hrange : raw.range.isInverted with
      | true => exact .inl ⟨rfl, _, rfl⟩
      | false => exact .inr ⟨rfl, kind, rfl, rfl⟩

theorem eq_of_validate {uri : String} {container : Option String} {raw : RawSymbol} {s : Symbol}
    (h : raw.validate uri container = .ok s) : ∃ kind,
      s = { Symbol.ofParts (Text.trim raw.name) kind ⟨uri, raw.range⟩ container with metadata := raw.metadata } := by
  rcases validate_cases uri container raw with ⟨-, reason, hvalid⟩ | ⟨-, kind, -, hvalid⟩
  · exact nomatch hvalid.symm.trans h
  · exact ⟨kind, (Except.ok.inj (hvalid.symm.trans h)).symm⟩

end RawSymbol

namespace Ingested

variable {uri : String} {out : Ingested}

theorem holds_iff {id : String} : out.holds id = true ↔ id ∈ out.symbols.map Symbol.id := by
  simp [holds]

theorem location_of_validate {container : Option String} {raw : RawSymbol} {s : Symbol}
    (h : raw.validate uri container = .ok s) : s.location.uri = uri := by
  obtain ⟨kind, rfl⟩ := RawSymbol.eq_of_validate h
  rfl

theorem ofFile_accept (h : Symbol.OfFile uri out.symbols) {s : Symbol} (hs : s.location.uri = uri) :
    Symbol.OfFile uri (out.accept s).symbols := by
  unfold accept
  split
  · exact h
  · rename_i hnew
    have hnew : s.id ∉ out.symbols.map Symbol.id := mt holds_iff.mpr hnew
    refine ⟨?_, fun x hx => ?_⟩
    · rw [List.map_append, List.nodup_append]
      refine ⟨h.distinct, List.nodup_singleton _, ?_⟩
      rintro _ hx _ hy rfl
      exact hnew (List.mem_singleton.mp hy ▸ hx)
    · rcases List.mem_append.mp hx with hx | hx
      · exact h.placed x hx
      · rw [List.mem_singleton.mp hx]
        exact hs

mutual

theorem ofFile_visit {uri : String} {out : Ingested} (parent : Option String) (raw : RawSymbol)
    (h : Symbol.OfFile uri out.symbols) : Symbol.OfFile uri (visit uri parent out raw).symbols := by
  obtain ⟨name, kind, range, selection, detail, containerName, modifiers, tags, documentation, children⟩ := raw
  rw [visit]
  split
  · rename_i hs
    exact ofFile_visitAll _ children (ofFile_accept h (location_of_validate hs))
  · exact ofFile_visitAll _ children h

theorem ofFile_visitAll {uri : String} {out : Ingested} (parent : Option String) (raw : List RawSymbol)
    (h : Symbol.OfFile uri out.symbols) : Symbol.OfFile uri (visitAll uri parent out raw).symbols := by
  cases raw with
  | nil => exact h
  | cons s rest => exact ofFile_visitAll parent rest (ofFile_visit parent s h)

end

end Ingested

theorem ingest_ofFile (uri : String) (raw : List RawSymbol) : Symbol.OfFile uri (ingest uri raw).symbols :=
  Ingested.ofFile_visitAll none raw (Symbol.ofFile_nil uri)

end CodeAtlas
