import CodeAtlas.Proofs.Float.Width
import CodeAtlas.Proofs.Json.Wire

/-! Values that are read back as they were, or not at all.

A number that is not finite is written as null. Where a number has to be there, null is
not read as one, and the value cannot be read back (`Faithful`). A record is faithful if
its fields are, field by field (`ReadsAtMost`), except that a field that may be missing
must not be written as null, which is read as a field that is missing. -/
namespace CodeAtlas
open Json

/-- What is read back of a value, if it can be read, is the value. -/
def Faithful {α : Type} [Wire α] (a : α) : Prop := ∀ b, decode? (encode a) = some b → b = a

section
variable {α : Type} [Wire α]

theorem faithful_of_decode? {a : α} (h : decode? (encode a) = some a) : Faithful a :=
  fun _ hb => Option.some.inj (hb.symm.trans h)

theorem faithful_of_lawful [LawfulWire α] (a : α) : Faithful a := faithful_of_decode? (decode?_encode a)

theorem faithful_float (x : Float) : Faithful x := by
  by_cases finite : x.isFinite = true
  · exact faithful_of_decode? (decode?_encode_float finite)
  · intro y h
    have null : encode x = .null := if_neg finite
    rw [null] at h
    cases h

theorem encode_single {x : Float32} (finite : x.isFinite = true) : encode x = .float (Decimal.widen x) :=
  if_pos (Decimal.isFinite_widen finite)

theorem faithful_single {x : Float32} (finite : x.isFinite = true) : Faithful x := by
  refine faithful_of_decode? ?_
  rw [encode_single finite]
  exact congrArg some (Decimal.narrow_widen finite)

theorem faithful_list {xs : List α} (h : ∀ a ∈ xs, Faithful a) : Faithful xs := by
  induction xs with
  | nil => exact fun ys hys => (Option.some.inj hys).symm
  | cons a rest ih =>
    intro ys hys
    obtain ⟨b, hb, hys⟩ := Option.bind_eq_some_iff.mp ((List.mapM_cons ..).symm.trans hys)
    obtain ⟨bs, hbs, hys⟩ := Option.bind_eq_some_iff.mp hys
    obtain rfl := Option.some.inj hys
    rw [h a (by simp) b hb, ih (fun c hc => h c (List.mem_cons_of_mem a hc)) bs hbs]

end

namespace Json

/-- With these fields, the reader gives this value or none. -/
def ReadsAtMost {γ : Type} (read : Reader γ) (fields : List (String × Json)) (c : γ) : Prop :=
  ∀ c' rest, read (.named fields) = some (c', rest) → c' = c ∧ rest = .named fields

theorem ReadsAtMost.record? {γ : Type} {read : Reader γ} {fields : List (String × Json)} {c : γ}
    (h : ReadsAtMost read fields c) : ∀ c', record? read (.obj fields) = some c' → c' = c := by
  intro c' hc
  obtain ⟨⟨_, rest⟩, hread, rfl⟩ := Option.map_eq_some_iff.mp hc
  exact (h _ rest hread).1

namespace ReadsAtMost

variable {α β γ : Type} {fields : List (String × Json)} {name : String} {b : β}

theorem pure : ReadsAtMost (Pure.pure b) fields b := by
  intro b' rest h
  obtain ⟨rfl, rfl⟩ := Prod.mk.inj (Option.some.inj h)
  exact ⟨rfl, rfl⟩

theorem bind {read : Reader γ} {c : γ} {f : γ → Reader β} (h : ReadsAtMost read fields c)
    (hf : ReadsAtMost (f c) fields b) : ReadsAtMost (read >>= f) fields b := by
  intro b' rest hb
  obtain ⟨⟨c', rest'⟩, hc, hb⟩ := Option.bind_eq_some_iff.mp hb
  obtain ⟨rfl, rfl⟩ := h c' rest' hc
  exact hf b' rest hb

theorem of_lift {read : Option γ} {c : γ} (h : ∀ c', read = some c' → c' = c) :
    ReadsAtMost (liftM read : Reader γ) fields c := by
  intro c' rest hc
  obtain ⟨_, hread, hpair⟩ := Option.bind_eq_some_iff.mp hc
  obtain ⟨rfl, rfl⟩ := Prod.mk.inj (Option.some.inj hpair)
  exact ⟨h _ hread, rfl⟩

theorem nextField (name : String) : ReadsAtMost (nextField name) fields (fields.lookup name) := by
  intro found rest h
  obtain ⟨rfl, rfl⟩ := Prod.mk.inj (Option.some.inj h)
  exact ⟨rfl, rfl⟩

variable [Wire α]

/-! A field, and then the others. -/

theorem required {a : α} {f : α → Reader β} (h : fields.lookup name = some (encode a)) (ha : Faithful a)
    (hf : ReadsAtMost (f a) fields b) : ReadsAtMost (Json.required name >>= f) fields b := by
  refine bind (bind (nextField name) ?_) hf
  rw [h]
  exact of_lift ha

theorem withDefault {a fallback : α} {f : α → Reader β} (h : fields.lookup name = some (encode a)) (ha : Faithful a)
    (hf : ReadsAtMost (f a) fields b) : ReadsAtMost (Json.withDefault name fallback >>= f) fields b := by
  refine bind (bind (nextField name) ?_) hf
  rw [h]
  exact of_lift ha

theorem optional {o : Option α} {f : Option α → Reader β} (h : fields.lookup name = o.map encode)
    (ho : ∀ a ∈ o, Faithful a ∧ encode a ≠ .null) (hf : ReadsAtMost (f o) fields b) :
    ReadsAtMost (Json.optional name >>= f) fields b := by
  refine bind (bind (nextField name) ?_) hf
  rw [h]
  cases o with
  | none => exact pure
  | some a =>
    obtain ⟨ha, hn⟩ := ho a rfl
    unfold Faithful at ha
    rw [Option.map_some]
    generalize encode a = j at ha hn ⊢
    cases j with
    | null => exact absurd rfl hn
    | _ => exact bind (f := fun a => Pure.pure (some a)) (of_lift ha) pure

end ReadsAtMost

end Json

end CodeAtlas
