import CodeAtlas.Cache.Options
import CodeAtlas.Proofs.Json.Models
import CodeAtlas.Proofs.Json.Validity
import CodeAtlas.Service.Message

/-! What a client and the service exchange is read back from its JSON form.

Most forms are lawful. Signals hold fractions, so they are read back when these are
finite, and those read from valid JSON are (`GraphEvent.isFinite_of_decode?`). The
form of a raw symbol is a tree: its nesting is enough fuel to read it, since that of
each child is less (`RawSymbol.ofJson?_toJson`). -/
namespace CodeAtlas
open Json

namespace Json

variable {α β : Type} [Wire α]

/-- Values with finite fractions are read back from their forms, and so is every value
that is read from valid JSON. -/
structure RoundTrips (α : Type) [Wire α] (finite : α → Prop) : Prop where
  value : ∀ a, finite a → decode? (encode a) = some a
  json : ∀ j : Json, j.IsValid → ∀ a : α, decode? j = some a → decode? (encode a) = some a

theorem roundTrips_of_lawful [LawfulWire α] : RoundTrips α fun _ => True :=
  ⟨fun a _ => decode?_encode a, fun _ _ a _ => decode?_encode a⟩

theorem roundTrips_of_finite {finite : α → Prop} (value : ∀ a, finite a → decode? (encode a) = some a)
    (hread : ∀ j : Json, j.IsValid → ∀ a : α, decode? j = some a → finite a) : RoundTrips α finite :=
  ⟨value, fun j hj a h => value a (hread j hj a h)⟩

variable {fields : List (String × Json)} {name : String} {b : β}

/-- A field that is written as null when there is nothing to write. -/
theorem Reads.nullable [LawfulWire α] {o : Option α} {f : Option α → Reader β}
    (h : fields.lookup name = some (encode o)) (hf : Reads (f o) fields b) :
    Reads (Json.optional name >>= f) fields b := by
  refine reads_bind ?_ hf
  cases o with
  | none => exact reads_bind (c := some .null) (by rw [Reads, nextField_named, h]; rfl) reads_pure
  | some a => exact reads_optional h fun a _ => ⟨decode?_encode a, encode_ne_null a⟩

end Json

/-! ### Raw symbols -/

instance : LawfulWire RawKind where
  decode?_encode k := by
    cases k with
    | code n => simp [encode, decode?, nat?]
    | name s => rfl
  encode_ne_null k := by cases k <;> exact nofun

theorem encode_items (items : List Json) : encode items = .arr items := congrArg Json.arr (List.map_id items)

namespace RawSymbol

theorem listToJson_eq_map (children : List RawSymbol) : listToJson children = children.map toJson := by
  induction children with
  | nil => rfl
  | cons s rest ih => rw [listToJson, ih, List.map_cons]

theorem depth_le_depthOfItems {items : List Json} {j : Json} (h : j ∈ items) : depth j ≤ depthOfItems items := by
  induction items with
  | nil => cases h
  | cons first rest ih =>
    rw [depthOfItems]
    rcases List.mem_cons.mp h with rfl | h
    · exact Nat.le_max_left ..
    · exact (ih h).trans (Nat.le_max_right ..)

theorem depth_le_depthOfFields {fields : List (String × Json)} {f : String × Json} (h : f ∈ fields) :
    depth f.2 ≤ depthOfFields fields := by
  induction fields with
  | nil => cases h
  | cons first rest ih =>
    rw [depthOfFields]
    rcases List.mem_cons.mp h with rfl | h
    · exact Nat.le_max_left ..
    · exact (ih h).trans (Nat.le_max_right ..)

/-- The form of an entry: the forms of its children are its last field. -/
theorem toJson_eq (s : RawSymbol) :
    s.toJson = .object (s.ownFields ++ [put "children" (s.children.map toJson)]) := by
  cases s with
  | mk name kind range selectionRange detail containerName modifiers tags documentation children =>
    rw [toJson, listToJson_eq_map, put, encode_items]
    rfl

theorem depth_child_lt {s child : RawSymbol} (h : child ∈ s.children) : depth child.toJson < depth s.toJson := by
  have hitem : depth child.toJson ≤ depthOfItems (s.children.map toJson) :=
    depth_le_depthOfItems (List.mem_map_of_mem h)
  have hfield : ("children", Json.arr (s.children.map toJson)) ∈
      (s.ownFields ++ [put "children" (s.children.map toJson)]).filterMap id := by
    simp [put, encode_items]
  have hfields := depth_le_depthOfFields hfield
  rw [depth] at hfields
  rw [toJson_eq s, Json.object, depth]
  omega

/-- All but the children, and the forms of those. -/
theorem reads_readOwn (s : RawSymbol) :
    record? readOwn s.toJson = some ({ s with children := [] }, s.children.map toJson) := by
  have hchildren : decode? (encode (s.children.map toJson)) = some (s.children.map toJson) :=
    decode?_encode_list fun _ _ => rfl
  rw [toJson_eq]
  refine decode?_of_reads (.required ?_ <| .required ?_ <| .required ?_ <| .optional ?_ <| .optional ?_ <|
    .optional ?_ <| .withDefault ?_ <| .withDefault ?_ <| .optional ?_ <|
    reads_bind (reads_withDefault ?_ hchildren) reads_pure)
  all_goals
    dsimp only [ownFields, List.cons_append, List.nil_append]
    simp

/-- Fuel for the nesting of its form is enough to read an entry. -/
theorem ofJson?_toJson {fuel : Nat} {s : RawSymbol} (h : depth s.toJson ≤ fuel) :
    ofJson? fuel s.toJson = some s := by
  induction fuel generalizing s with
  | zero =>
    have : 0 < depth s.toJson := by
      rw [toJson_eq, Json.object, depth]
      exact Nat.succ_pos _
    omega
  | succ fuel ih =>
    have hchildren : (s.children.map toJson).mapM (ofJson? fuel) = some s.children :=
      mapM_map_eq_some fun child hchild => ih (by have := depth_child_lt hchild; omega)
    rw [ofJson?, reads_readOwn]
    show (do
      let children ← (s.children.map toJson).mapM (ofJson? fuel)
      return { s with children }) = some s
    rw [hchildren]
    cases s
    rfl

end RawSymbol

instance : LawfulWire RawSymbol where
  decode?_encode _ := RawSymbol.ofJson?_toJson (Nat.le_refl _)
  encode_ne_null s := by
    show s.toJson ≠ .null
    rw [RawSymbol.toJson_eq]
    exact obj_ne_null _

/-! ### The cache -/

instance : LawfulWire CacheStore := ⟨fun s => named?_name s (by cases s <;> rfl), fun _ => str_ne_null _⟩

instance : LawfulWire CacheStats :=
  ⟨fun _ => decode?_of_reads (.required rfl <| .required rfl <| .required rfl <| .required rfl <|
    .required rfl reads_pure), fun _ => obj_ne_null _⟩

instance : LawfulWire CacheOptionsUpdate :=
  ⟨fun _ => decode?_of_reads (.nullable rfl <| .nullable rfl <| .nullable rfl <| .nullable rfl reads_pure),
    fun _ => obj_ne_null _⟩

/-! ### Signals -/

namespace GraphEvent

/-- The time a signal tells of, if it tells of one, is finite. -/
def IsFinite : GraphEvent → Prop
  | queryExecuted _ elapsed _ => elapsed.isFinite = true
  | layoutComputed _ _ elapsed => elapsed.isFinite = true
  | _ => True

/-- A signal is read by the reader of its name. -/
theorem decode?_encode_of_reads {e : GraphEvent} (h : Reads (read e.name) (("type", .str e.name) :: e.fields) e) :
    decode? (encode e) = some e := decode?_of_reads h

theorem decode?_encode_of_isFinite {e : GraphEvent} (h : e.IsFinite) : decode? (encode e) = some e := by
  apply decode?_encode_of_reads
  cases e with
  | symbolsChanged => exact .required rfl <| .required rfl reads_pure
  | relationshipsChanged => exact .required rfl reads_pure
  | indexUpdated => exact .required rfl reads_pure
  | queryExecuted =>
    exact .required rfl <| reads_bind (reads_required rfl (decode?_encode_float h)) <| .required rfl reads_pure
  | layoutComputed =>
    exact .required rfl <| .required rfl <| reads_bind (reads_required rfl (decode?_encode_float h)) reads_pure
  | cacheEvicted => exact .required rfl <| .required rfl <| .required rfl reads_pure
  | cacheStatsUpdated => exact .required rfl reads_pure
  | metricsUpdated => exact reads_bind (reads_required rfl rfl) reads_pure

theorem yields_read (name : String) : Yields (read name) IsFinite := by
  have hfinite : Yields (required "elapsedMs") fun x : Float => x.isFinite = true :=
    yields_required fun _ _ => Json.isFinite_of_decode?
  unfold read
  split
  case h_4 =>
    exact yields_bind (yields_any _) fun _ _ => yields_bind hfinite fun _ h =>
      yields_bind (yields_any _) fun _ _ => yields_pure h
  case h_5 =>
    exact yields_bind (yields_any _) fun _ _ => yields_bind (yields_any _) fun _ _ =>
      yields_bind hfinite fun _ h => yields_pure h
  case h_2 | h_3 | h_7 | h_8 => exact yields_bind (yields_any _) fun _ _ => yields_pure trivial
  case h_1 => exact yields_bind (yields_any _) fun _ _ => yields_bind (yields_any _) fun _ _ => yields_pure trivial
  case h_6 =>
    exact yields_bind (yields_any _) fun _ _ => yields_bind (yields_any _) fun _ _ =>
      yields_bind (yields_any _) fun _ _ => yields_pure trivial
  case h_9 => nofun

/-- The time a signal from valid JSON tells of is finite. -/
theorem isFinite_of_decode? {j : Json} (hj : j.IsValid) {e : GraphEvent} (h : decode? j = some e) : e.IsFinite := by
  dsimp only [decode?, instWireGraphEvent] at h
  split at h
  · split at h
    · exact yields_of_record? (yields_read _) hj h
    · cases h
  · cases hj with
    | arr hitems => exact yields_of_record? (yields_read _) (.arr fun j hj => hitems j (List.mem_cons_of_mem _ hj)) h
  · cases h

end GraphEvent

/-! ### Messages -/

namespace SocketMessage

/-- The signal a message brings, if it brings one, has a finite time. -/
def IsFinite : SocketMessage → Prop
  | signal event => event.IsFinite
  | _ => True

theorem decode?_encode_of_isFinite {m : SocketMessage} (h : m.IsFinite) : decode? (encode m) = some m := by
  cases m with
  | command id name args =>
    have hargs : decode? (encode args) = some args := decode?_encode_list fun _ _ => rfl
    exact decode?_of_reads (.nullable rfl <| .required rfl <| reads_bind (reads_withDefault rfl hargs) reads_pure)
  | response => exact decode?_of_reads (.nullable rfl <| reads_bind (reads_required rfl rfl) reads_pure)
  | failure =>
    exact decode?_of_reads (.nullable rfl <| .required rfl <| .required rfl <|
      reads_bind (reads_required rfl rfl) reads_pure)
  | signal event =>
    exact decode?_of_reads (reads_bind (reads_required rfl (GraphEvent.decode?_encode_of_isFinite h)) reads_pure)
  | ping => rfl
  | pong => rfl

theorem yields_read (type : String) : Yields (read type) IsFinite := by
  unfold read
  split
  case h_1 =>
    exact yields_bind (yields_any_or_none _) fun _ _ => yields_bind (yields_any _) fun _ _ =>
      yields_bind (yields_any_or _ _) fun _ _ => yields_pure trivial
  case h_2 =>
    exact yields_bind (yields_any_or_none _) fun _ _ => yields_bind (yields_any _) fun _ _ => yields_pure trivial
  case h_3 =>
    exact yields_bind (yields_any_or_none _) fun _ _ => yields_bind (yields_any _) fun _ _ =>
      yields_bind (yields_any _) fun _ _ => yields_bind (yields_any _) fun _ _ => yields_pure trivial
  case h_4 =>
    have hevent : Yields (required "event") GraphEvent.IsFinite :=
      yields_required fun _ _ hj => GraphEvent.isFinite_of_decode? hj
    exact yields_bind hevent fun _ h => yields_pure h
  case h_5 | h_6 => exact yields_pure trivial
  case h_7 => nofun

theorem isFinite_of_decode? {j : Json} (hj : j.IsValid) {m : SocketMessage} (h : decode? j = some m) : m.IsFinite := by
  dsimp only [decode?, instWireSocketMessage] at h
  split at h
  · split at h
    · exact yields_of_record? (yields_read _) hj h
    · cases h
  · cases hj with
    | arr hitems => exact yields_of_record? (yields_read _) (.arr fun j hj => hitems j (List.mem_cons_of_mem _ hj)) h
  · cases h

end SocketMessage

/-- Raw symbols of any nesting, symbols, queries, scopes, statistics, options, signals
and messages are read back from their forms, and so is what is read of them from any
valid JSON. -/
theorem messages_round_trip :
    RoundTrips RawSymbol (fun _ => True) ∧ RoundTrips Symbol (fun _ => True) ∧
    RoundTrips GraphQuery (fun _ => True) ∧ RoundTrips QueryScope (fun _ => True) ∧
    RoundTrips CacheStats (fun _ => True) ∧ RoundTrips CacheOptionsUpdate (fun _ => True) ∧
    RoundTrips GraphEvent GraphEvent.IsFinite ∧ RoundTrips SocketMessage SocketMessage.IsFinite :=
  ⟨roundTrips_of_lawful, roundTrips_of_lawful, roundTrips_of_lawful, roundTrips_of_lawful, roundTrips_of_lawful,
    roundTrips_of_lawful,
    roundTrips_of_finite (fun _ => GraphEvent.decode?_encode_of_isFinite) fun _ hj _ => GraphEvent.isFinite_of_decode? hj,
    roundTrips_of_finite (fun _ => SocketMessage.decode?_encode_of_isFinite)
      fun _ hj _ => SocketMessage.isFinite_of_decode? hj⟩

/-- A command read from an array, and a signal of a query that took half a millisecond. -/
theorem command_and_signal_round_trip :
    let command := SocketMessage.command (some 7) "stats" []
    let signal := SocketMessage.signal (.queryExecuted 1 0.5 false)
    decode? (encode command) = some command ∧ decode? (encode signal) = some signal :=
  have hmessages := messages_round_trip.2.2.2.2.2.2.2
  have hvalid : (Json.arr [.str "command", .int 7, .str "stats"]).IsValid := by
    refine .arr ?_
    simp only [List.forall_mem_cons]
    exact ⟨.str _, .int (by decide) (by decide), .str _, nofun⟩
  ⟨hmessages.json _ hvalid _ rfl, hmessages.value _ (by show Float.isFinite 0.5 = true; decide)⟩

end CodeAtlas
