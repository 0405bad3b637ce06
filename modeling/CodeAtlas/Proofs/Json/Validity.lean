import CodeAtlas.Proofs.Float.Integers
import CodeAtlas.Proofs.Json.Wire

/-! What is read from valid JSON values.

A valid value has no fraction that is not finite and no whole number past 64 bits; text
gives no others. What a reader takes from a valid value comes from valid parts of it
(`Yields`), so the fractions it takes are finite. -/
namespace CodeAtlas.Json

/-- A value as text can give it. -/
inductive IsValid : Json → Prop where
  | null : IsValid .null
  | bool (b : Bool) : IsValid (.bool b)
  | int {n : Int} (low : -2 ^ 63 ≤ n) (high : n < 2 ^ 64) : IsValid (.int n)
  | float {x : Float} (finite : x.isFinite = true) : IsValid (.float x)
  | single {x : Float32} (finite : x.isFinite = true) : IsValid (.single x)
  | str (s : String) : IsValid (.str s)
  | arr {items : List Json} (h : ∀ j ∈ items, IsValid j) : IsValid (.arr items)
  | obj {fields : List (String × Json)} (h : ∀ f ∈ fields, IsValid f.2) : IsValid (.obj fields)

def Source.IsValid : Source → Prop
  | .named fields => ∀ f ∈ fields, Json.IsValid f.2
  | .positional items => ∀ j ∈ items, Json.IsValid j

/-- What the reader takes from a valid source is as `Q` has it. -/
def Yields {α : Type} (read : Reader α) (Q : α → Prop) : Prop :=
  ∀ source, source.IsValid → ∀ a rest, read source = some (a, rest) → Q a ∧ rest.IsValid

variable {α β : Type} {P : α → Prop} {Q : β → Prop}

theorem yields_pure {b : β} (h : Q b) : Yields (pure b) Q := by
  intro source hs b' rest hread
  obtain ⟨rfl, rfl⟩ := Prod.mk.inj (Option.some.inj hread)
  exact ⟨h, hs⟩

theorem yields_bind {read : Reader α} {f : α → Reader β} (hr : Yields read P) (hf : ∀ a, P a → Yields (f a) Q) :
    Yields (read >>= f) Q := by
  intro source hs b rest hread
  obtain ⟨⟨a, next⟩, hfirst, hnext⟩ := Option.bind_eq_some_iff.mp hread
  obtain ⟨ha, hvalid⟩ := hr source hs a next hfirst
  exact hf a ha next hvalid b rest hnext

theorem mem_of_lookup {fields : List (String × Json)} {name : String} {j : Json} (h : fields.lookup name = some j) :
    (name, j) ∈ fields := by
  obtain ⟨before, after, rfl, -⟩ := List.lookup_eq_some_iff.mp h
  simp

theorem yields_nextField (name : String) : Yields (nextField name) fun found => ∀ j, found = some j → j.IsValid := by
  intro source hs found rest hread
  cases source with
  | named fields =>
    obtain ⟨rfl, rfl⟩ := Prod.mk.inj (Option.some.inj hread)
    exact ⟨fun j hj => hs _ (mem_of_lookup hj), hs⟩
  | positional items =>
    cases items with
    | nil =>
      obtain ⟨rfl, rfl⟩ := Prod.mk.inj (Option.some.inj hread)
      exact ⟨nofun, hs⟩
    | cons j items =>
      obtain ⟨rfl, rfl⟩ := Prod.mk.inj (Option.some.inj hread)
      exact ⟨fun j' hj => Option.some.inj hj ▸ hs j (by simp), fun j' hj => hs j' (List.mem_cons_of_mem _ hj)⟩

theorem yields_lift {read : Option β} (h : ∀ b, read = some b → Q b) : Yields (liftM read : Reader β) Q := by
  intro source hs b rest hread
  obtain ⟨b', hb', hpair⟩ := Option.bind_eq_some_iff.mp hread
  obtain ⟨rfl, rfl⟩ := Prod.mk.inj (Option.some.inj hpair)
  exact ⟨h _ hb', hs⟩

theorem yields_of_record? {read : Reader β} (hr : Yields read Q) {j : Json} (hj : j.IsValid) {b : β}
    (h : record? read j = some b) : Q b := by
  cases hj with
  | obj hfields =>
    obtain ⟨⟨b', rest⟩, hread, rfl⟩ := Option.map_eq_some_iff.mp h
    exact (hr (.named _) hfields b' rest hread).1
  | arr hitems =>
    dsimp only [record?] at h
    split at h
    · rename_i hread
      obtain rfl := Option.some.inj h
      exact (hr (.positional _) hitems _ _ hread).1
    · cases h
  | _ => cases h

variable [Wire β]

theorem yields_required {name : String} (h : ∀ j b, j.IsValid → decode? j = some b → Q b) :
    Yields (required name) Q := by
  refine yields_bind (yields_nextField name) fun found hfound => ?_
  cases found with
  | none => exact yields_lift nofun
  | some j => exact yields_lift fun b hb => h j b (hfound j rfl) hb

/-! Fields of which nothing has to be known. -/

theorem yields_any (name : String) : Yields (required name : Reader β) fun _ => True :=
  yields_required fun _ _ _ _ => trivial

theorem yields_any_or (name : String) (fallback : β) : Yields (withDefault name fallback) fun _ => True := by
  refine yields_bind (yields_nextField name) fun found _ => ?_
  cases found with
  | none => exact yields_pure trivial
  | some j => exact yields_lift fun _ _ => trivial

theorem yields_any_or_none (name : String) : Yields (optional name : Reader (Option β)) fun _ => True := by
  refine yields_bind (yields_nextField name) fun found _ => ?_
  have hread (j : Json) : Yields (some <$> (liftM (decode? j : Option β) : Reader β)) fun _ => True :=
    yields_bind (f := fun b => pure (some b)) (yields_lift fun _ _ => trivial) fun _ _ => yields_pure trivial
  cases found with
  | none => exact yields_pure trivial
  | some j =>
    cases j with
    | null => exact yields_pure trivial
    | _ => exact hread _

/-- A fraction is read from a finite one, or from a whole number. -/
theorem isFinite_of_decode? {j : Json} {x : Float} (hj : j.IsValid) (h : decode? j = some x) : x.isFinite = true := by
  cases hj with
  | float finite => exact Option.some.inj h ▸ finite
  | int low high => exact Option.some.inj h ▸ Binary64.isFinite_ofInt low high
  | _ => cases h

end CodeAtlas.Json
