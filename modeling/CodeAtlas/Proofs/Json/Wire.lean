import CodeAtlas.Json.Wire
import Mathlib.Data.List.Basic

/-! Values are read back from their JSON forms.

A type with a lawful form reads every value back, and no value of it is written as
null, so a field of it may be left out (`LawfulWire`). Fractions are read back when
they are finite. A record that is written as an object is read field by field
(`Reads`): every reader looks its field up, wherever it stands, and finds it among
those that were put in (`lookup_put`, `lookup_putSome`). -/
namespace CodeAtlas

/-- A type all of whose values are read back, and told from a value that is missing. -/
class LawfulWire (α : Type) [Wire α] : Prop where
  decode?_encode (a : α) : decode? (encode a) = some a
  encode_ne_null (a : α) : encode a ≠ .null

export LawfulWire (decode?_encode encode_ne_null)

attribute [simp] decode?_encode encode_ne_null

theorem encode_injective {α : Type} [Wire α] [LawfulWire α] {a b : α} (h : encode a = encode b) : a = b :=
  Option.some.inj (by rw [← decode?_encode a, h, decode?_encode])

namespace Json

variable {α β : Type} [Wire α]

/-! ### Values -/

theorem str_ne_null (s : String) : Json.str s ≠ .null := nofun

theorem obj_ne_null (fields : List (String × Json)) : Json.obj fields ≠ .null := nofun

instance : LawfulWire String := ⟨fun _ => rfl, nofun⟩

instance : LawfulWire Bool := ⟨fun _ => rfl, nofun⟩

instance : LawfulWire Nat := ⟨fun n => by simp [encode, decode?, nat?], nofun⟩

instance : LawfulWire UInt32 where
  decode?_encode n := by
    have := n.toNat_lt
    simp [encode, decode?, nat?, this]
  encode_ne_null := nofun

instance : LawfulWire Int64 where
  decode?_encode n := by
    have hrange : (Int64.minValue.toInt ≤ n.toInt && n.toInt ≤ Int64.maxValue.toInt) = true := by
      simpa only [Bool.and_eq_true, decide_eq_true_eq] using ⟨n.minValue_le_toInt, n.toInt_le⟩
    show (if Int64.minValue.toInt ≤ n.toInt && n.toInt ≤ Int64.maxValue.toInt then some (Int64.ofInt n.toInt)
      else none) = some n
    rw [if_pos hrange, Int64.ofInt_toInt]
  encode_ne_null := nofun

theorem mapM_map_eq_some {γ δ : Type} {write : γ → δ} {read : δ → Option γ} {xs : List γ}
    (h : ∀ a ∈ xs, read (write a) = some a) : (xs.map write).mapM read = some xs := by
  induction xs with
  | nil => rfl
  | cons a rest ih =>
    rw [List.map_cons, List.mapM_cons, h a (by simp), ih fun b hb => h b (by simp [hb])]
    rfl

theorem decode?_encode_list {xs : List α} (h : ∀ a ∈ xs, decode? (encode a) = some a) :
    decode? (encode xs) = some xs := mapM_map_eq_some h

instance [LawfulWire α] : LawfulWire (List α) := ⟨fun _ => decode?_encode_list fun a _ => decode?_encode a, nofun⟩

/-- Constants of an enumeration are read back if each is the first of its name. -/
theorem named?_name {γ : Type} {all : List γ} {name : γ → String} (a : γ)
    (h : all.find? (fun b => name b == name a) = some a) : named? all name (.str (name a)) = some a := h

theorem decode?_encode_float {x : Float} (h : x.isFinite = true) : decode? (encode x) = some x := by
  simp [encode, decode?, ofFloat, h]

/-! ### Fields -/

/-- The fields of an object that are there, with `id` as `simp` leaves it. -/
@[simp] theorem lookup_put (k name : String) (a : α) (rest : List (Option (String × Json))) :
    ((put name a :: rest).filterMap fun f => f).lookup k =
      if k == name then some (encode a) else (rest.filterMap fun f => f).lookup k := by
  show List.lookup k ((name, encode a) :: rest.filterMap id) = _
  rw [List.lookup_cons]
  cases k == name <;> rfl

@[simp] theorem lookup_putSome (k name : String) (o : Option α) (rest : List (Option (String × Json))) :
    ((putSome name o :: rest).filterMap fun f => f).lookup k =
      if k == name then (o.map encode).or ((rest.filterMap fun f => f).lookup k)
      else (rest.filterMap fun f => f).lookup k := by
  cases o with
  | none =>
    show (rest.filterMap id).lookup k = _
    split <;> rfl
  | some a => exact lookup_put k name a rest

/-- With these fields, the reader gives this value. -/
def Reads {γ : Type} (read : Reader γ) (fields : List (String × Json)) (c : γ) : Prop :=
  read (.named fields) = some (c, .named fields)

theorem decode?_of_reads {γ : Type} {read : Reader γ} {fields : List (String × Json)} {c : γ}
    (h : Reads read fields c) : record? read (.obj fields) = some c := by
  show (read (.named fields)).map (·.1) = some c
  rw [h]
  rfl

variable {fields : List (String × Json)} {name : String} {b : β}

theorem reads_pure : Reads (pure b) fields b := rfl

/-- A field that is read, and then the others. -/
theorem reads_bind {γ : Type} {read : Reader γ} {c : γ} {f : γ → Reader β} (h : Reads read fields c)
    (hf : Reads (f c) fields b) : Reads (read >>= f) fields b := by
  show (read (.named fields)).bind (fun p => f p.1 p.2) = _
  rw [h]
  exact hf

theorem nextField_named : nextField name (.named fields) = some (fields.lookup name, .named fields) := rfl

theorem reads_required {a : α} (h : fields.lookup name = some (encode a)) (ha : decode? (encode a) = some a) :
    Reads (required name) fields a := by
  refine reads_bind (c := some (encode a)) (by rw [Reads, nextField_named, h]) ?_
  show (liftM (decode? (encode a) : Option α) : Reader α) _ = _
  rw [ha]
  rfl

theorem reads_withDefault {a fallback : α} (h : fields.lookup name = some (encode a))
    (ha : decode? (encode a) = some a) : Reads (withDefault name fallback) fields a := by
  refine reads_bind (c := some (encode a)) (by rw [Reads, nextField_named, h]) ?_
  show (liftM (decode? (encode a) : Option α) : Reader α) _ = _
  rw [ha]
  rfl

theorem reads_optional {o : Option α} (h : fields.lookup name = o.map encode)
    (ho : ∀ a ∈ o, decode? (encode a) = some a ∧ encode a ≠ .null) : Reads (optional name) fields o := by
  refine reads_bind (c := o.map encode) (by rw [Reads, nextField_named, h]) ?_
  cases o with
  | none => rfl
  | some a =>
    obtain ⟨hd, hn⟩ := ho a rfl
    rw [Option.map_some]
    generalize encode a = j at hd hn ⊢
    cases j with
    | null => exact absurd rfl hn
    | _ =>
      show (some <$> (liftM (decode? _ : Option α) : Reader α)) _ = _
      rw [hd]
      rfl

/-! Fields of lawful types, and then the others. -/

variable [LawfulWire α]

theorem Reads.required {a : α} {f : α → Reader β} (h : fields.lookup name = some (encode a))
    (hf : Reads (f a) fields b) : Reads (Json.required name >>= f) fields b :=
  reads_bind (reads_required h (decode?_encode a)) hf

theorem Reads.withDefault {a fallback : α} {f : α → Reader β} (h : fields.lookup name = some (encode a))
    (hf : Reads (f a) fields b) : Reads (Json.withDefault name fallback >>= f) fields b :=
  reads_bind (reads_withDefault h (decode?_encode a)) hf

theorem Reads.optional {o : Option α} {f : Option α → Reader β} (h : fields.lookup name = o.map encode)
    (hf : Reads (f o) fields b) : Reads (Json.optional name >>= f) fields b :=
  reads_bind (reads_optional h fun a _ => ⟨decode?_encode a, encode_ne_null a⟩) hf

end Json

end CodeAtlas
