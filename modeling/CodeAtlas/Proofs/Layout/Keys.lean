import CodeAtlas.Engine.Basic
import CodeAtlas.Proofs.Json.Models

/-! Layout requests are told apart by what is hashed of them.

The key of a layout is the algorithm and a digest of two texts, of the graph and of the
options. As long as numbers are finite, the texts tell the graph and the options
(`Tells`): every number has digits of its own, and a pin or a strength that is missing
is not written at all. A number that is not finite is written as null, which for an
option is what a missing one is written as. -/
namespace CodeAtlas
open Json

/-! ### Digests in hexadecimal digits -/

namespace Digest

/-- The number a hexadecimal digit stands for. -/
def digitValue (c : Char) : Nat := if c.isDigit then c.toNat - 48 else c.toNat - 87

/-- The number that hexadecimal digits stand for, the highest first. -/
def readHex (cs : List Char) : Nat := cs.foldl (fun n c => 16 * n + digitValue c) 0

theorem digitValue_digitChar : ∀ n < 16, digitValue (Nat.digitChar n) = n := by decide

theorem readHex_toDigits (n : Nat) : readHex (Nat.toDigits 16 n) = n := by
  induction n using Nat.strongRecOn with
  | ind n ih =>
    by_cases h : n < 16
    · rw [Nat.toDigits_of_lt_base h]
      simp [readHex, digitValue_digitChar n h]
    · rw [Nat.toDigits_of_base_le (by decide) (Nat.le_of_not_lt h), readHex, List.foldl_append, ← readHex,
        ih (n / 16) (by omega)]
      simp only [List.foldl_cons, List.foldl_nil, digitValue_digitChar _ (Nat.mod_lt n (by decide : 0 < 16))]
      omega

theorem readHex_zeros (k : Nat) (cs : List Char) : readHex (List.replicate k '0' ++ cs) = readHex cs := by
  induction k with
  | zero => rfl
  | succ k ih => exact ih

theorem hex_injective {x y : UInt64} (h : hex x = hex y) : x = y := by
  have read (x : UInt64) : readHex (hex x).toList = x.toNat := by
    rw [hex, String.toList_ofList, readHex_zeros, readHex_toDigits]
  rw [← UInt64.toNat_inj, ← read x, h, read y]

theorem length_hex (x : UInt64) : (hex x).toList.length = 16 := by
  have short : (Nat.toDigits 16 x.toNat).length ≤ 16 :=
    (Nat.length_toDigits_le_iff (by decide) (by decide)).mpr x.toNat_lt
  rw [hex, String.toList_ofList, List.length_append, List.length_replicate]
  omega

/-- Of what was hashed, no two lists of texts have the same digest. -/
def TellsApart (hashed : List (List String)) : Prop :=
  ∀ texts ∈ hashed, ∀ texts' ∈ hashed, ofTexts texts = ofTexts texts' → texts = texts'

theorem tellsApart_of_same {hashed : List (List String)} {texts : List String} (h : ∀ t ∈ hashed, t = texts) :
    TellsApart hashed := fun t ht t' ht' _ => (h t ht).trans (h t' ht').symm

end Digest

/-! ### What is written tells a value -/

namespace Json

variable {α : Type} {write : α → Json}

/-- What is written of a value is written of no other value. -/
def Tells (write : α → Json) (a : α) : Prop := ∀ b, written (write a) = written (write b) → a = b

theorem tells_of_lawful [Wire α] [LawfulWire α] [PlainWire α] (a : α) : Tells encode a :=
  fun b h => encode_injective (written_injective (plain a) (plain b) h)

theorem ofFloat_cancel {x y : Float} (hx : x.isFinite = true) (h : ofFloat x = ofFloat y) : x = y := by
  unfold ofFloat at h
  rw [if_pos hx] at h
  split at h
  · exact Json.float.inj h
  · cases h

theorem tells_float {x : Float} (hx : x.isFinite = true) : Tells encode x :=
  fun y h => ofFloat_cancel hx (written_injective (plain x) (plain y) h)

theorem tells_single {x : Float32} (hx : x.isFinite = true) : Tells ofSingle x := by
  intro y h
  obtain ⟨t, ht, hne, hn, -⟩ := fraction_numeral (Decimal.exists_finite_ofFloat32 hx)
  unfold ofSingle at h
  rw [if_pos hx] at h
  split at h
  · rename_i hy
    exact singleText_injective hx hy (String.toList_inj.mp (Written.token.inj h))
  · have htext : chars (.single x) = t := by
      show (singleText x).toList = t
      rw [singleText, ht, Option.getD_some, String.toList_ofList]
    have hnull : t = chars .null := htext.symm.trans (Written.token.inj h)
    exact absurd (hn 'n' (by rw [hnull]; decide)) (by decide)

theorem tells_list {xs : List α} (h : ∀ a ∈ xs, Tells write a) : Tells (fun xs => .arr (xs.map write)) xs := by
  intro ys hxy
  rw [written_arr, written_arr, List.map_map, List.map_map] at hxy
  exact eq_of_map_eq (fun a ha b _ hab => h a ha b hab) (Written.arr.inj hxy)

/-- A field that may be missing. -/
theorem eq_of_written_option (write : α → Json) {o o' : Option α} (h : ∀ a ∈ o, Tells write a)
    (heq : (o.map write).map written = (o'.map write).map written) : o = o' := by
  cases o with
  | none =>
    cases o' with
    | none => rfl
    | some b => cases heq
  | some a =>
    cases o' with
    | none => cases heq
    | some b => rw [h a rfl b (Option.some.inj heq)]

theorem lookup_writtenField (fields : List (String × Json)) (k : String) :
    (fields.map writtenField).lookup k = (fields.lookup k).map written := by
  induction fields with
  | nil => rfl
  | cons f rest ih =>
    rw [List.map_cons, writtenField, List.lookup_cons, List.lookup_cons, ih]
    cases k == f.1 <;> rfl

/-- Of two objects of which the same is written, the same is written of every field. -/
theorem written_lookup {fields fields' : List (String × Json)} (h : written (.obj fields) = written (.obj fields'))
    (k : String) : (fields.lookup k).map written = (fields'.lookup k).map written := by
  rw [written_obj, written_obj] at h
  rw [← lookup_writtenField, ← lookup_writtenField, Written.obj.inj h]

end Json

/-! ### Graphs -/

instance : PlainWire UInt32 := ⟨fun n => .int n.toNat⟩

instance : PlainWire Position where
  plain p := by
    have h : PlainFields [put "line" p.line, put "character" p.character] := .put <| .put .nil
    exact plain_object h

instance : PlainWire Range where
  plain r := by
    have h : PlainFields [put "start" r.start, put "end" r.stop] := .put <| .put .nil
    exact plain_object h

instance : PlainWire Location where
  plain l := by
    have h : PlainFields [put "uri" l.uri, put "range" l.range] := .put <| .put .nil
    exact plain_object h

instance : PlainWire Visibility := ⟨fun v => .str v.name⟩

instance : PlainWire SymbolMetadata :=
  ⟨fun _ => plain_object (.put <| .put <| .put <| .put <| .put <| .putSome <| .putSome <| .putSome .nil)⟩

instance : PlainWire Symbol :=
  ⟨fun _ => plain_object (.put <| .put <| .put <| .put <| .putSome <| .put <| .put .nil)⟩

instance : PlainWire Cardinality := ⟨fun c => .str c.name⟩

instance : PlainWire EdgeDirection := ⟨fun d => .str d.name⟩

/-- The fractions of a node, those of a pin if they are there. -/
def GraphNode.fractions (n : GraphNode) : List Float := [n.x, n.y, n.vx, n.vy, n.size] ++ n.fx.toList ++ n.fy.toList

def GraphEdge.fractions (e : GraphEdge) : List Float := [e.strength, e.width]

/-- All numbers of a graph are finite. -/
structure GraphData.AllFinite (d : GraphData) : Prop where
  nodes : ∀ n ∈ d.nodes, ∀ x ∈ n.fractions, x.isFinite = true
  edges : ∀ e ∈ d.edges, ∀ x ∈ e.fractions, x.isFinite = true
  ratings : ∀ e ∈ d.edges, ∀ x ∈ e.relationship.metadata.strength, x.isFinite = true

theorem tells_graphNode {n : GraphNode} (h : ∀ x ∈ n.fractions, x.isFinite = true) : Tells encode n := by
  intro m hm
  have field := written_lookup hm
  have id := tells_of_lawful n.id m.id (by simpa using field "id")
  have symbol := tells_of_lawful n.symbol m.symbol (by simpa using field "symbol")
  have x := tells_float (h n.x (by simp [GraphNode.fractions])) m.x (by simpa using field "x")
  have y := tells_float (h n.y (by simp [GraphNode.fractions])) m.y (by simpa using field "y")
  have vx := tells_float (h n.vx (by simp [GraphNode.fractions])) m.vx (by simpa using field "vx")
  have vy := tells_float (h n.vy (by simp [GraphNode.fractions])) m.vy (by simpa using field "vy")
  have fx : n.fx = m.fx := by
    refine eq_of_written_option encode (fun v hv => tells_float (h v ?_)) (by simpa using field "fx")
    simp [GraphNode.fractions, Option.mem_def.mp hv]
  have fy : n.fy = m.fy := by
    refine eq_of_written_option encode (fun v hv => tells_float (h v ?_)) (by simpa using field "fy")
    simp [GraphNode.fractions, Option.mem_def.mp hv]
  have size := tells_float (h n.size (by simp [GraphNode.fractions])) m.size (by simpa using field "size")
  have color := tells_of_lawful n.color m.color (by simpa using field "color")
  have group := tells_of_lawful n.group m.group (by simpa using field "group")
  have positioned := tells_of_lawful n.positioned m.positioned (by simpa using field "positioned")
  cases n
  cases m
  rw [GraphNode.mk.injEq]
  exact ⟨id, symbol, x, y, vx, vy, fx, fy, size, color, group, positioned⟩

theorem tells_relationshipMetadata {m : RelationshipMetadata} (h : ∀ x ∈ m.strength, x.isFinite = true) :
    Tells (RelationshipMetadata.toJson ofSingle) m := by
  intro m' hm
  have field := written_lookup hm
  have strength : m.strength = m'.strength :=
    eq_of_written_option (encode ∘ ofSingle) (fun x hx => tells_single (h x hx)) (by simpa using field "strength")
  have cardinality : m.cardinality = m'.cardinality :=
    eq_of_written_option encode (fun c _ => tells_of_lawful c) (by simpa using field "cardinality")
  have direction : m.direction = m'.direction :=
    eq_of_written_option encode (fun d _ => tells_of_lawful d) (by simpa using field "direction")
  have labels := tells_of_lawful m.labels m'.labels (by simpa using field "labels")
  cases m
  cases m'
  rw [RelationshipMetadata.mk.injEq]
  exact ⟨strength, cardinality, direction, labels⟩

theorem tells_relationship {r : Relationship} (h : ∀ x ∈ r.metadata.strength, x.isFinite = true) :
    Tells (Relationship.toJson ofSingle) r := by
  intro r' hr
  simp only [Relationship.toJson, written_obj, writtenField, List.map_cons, List.map_nil, Written.obj.injEq,
    List.cons.injEq, Prod.mk.injEq, true_and, and_true] at hr
  obtain ⟨source, target, kind, metadata⟩ := hr
  cases r
  cases r'
  rw [Relationship.mk.injEq]
  exact ⟨tells_of_lawful _ _ source, tells_of_lawful _ _ target, tells_of_lawful _ _ kind,
    tells_relationshipMetadata h _ metadata⟩

theorem tells_graphEdge {e : GraphEdge} (h : ∀ x ∈ e.fractions, x.isFinite = true)
    (rating : ∀ x ∈ e.relationship.metadata.strength, x.isFinite = true) : Tells (GraphEdge.toJson ofSingle) e := by
  intro e' he
  simp only [GraphEdge.toJson, written_obj, writtenField, List.map_cons, List.map_nil, Written.obj.injEq,
    List.cons.injEq, Prod.mk.injEq, true_and, and_true] at he
  obtain ⟨source, target, relationship, strength, color, width⟩ := he
  have strength := tells_float (h e.strength (by simp [GraphEdge.fractions])) _ strength
  have width := tells_float (h e.width (by simp [GraphEdge.fractions])) _ width
  cases e
  cases e'
  rw [GraphEdge.mk.injEq]
  exact ⟨tells_of_lawful _ _ source, tells_of_lawful _ _ target, tells_relationship rating _ relationship, strength,
    tells_of_lawful _ _ color, width⟩

theorem tells_graphData {d : GraphData} (h : d.AllFinite) : Tells (GraphData.toJson ofSingle) d := by
  intro d' hd
  simp only [GraphData.toJson, written_obj, writtenField, List.map_cons, List.map_nil, Written.obj.injEq,
    List.cons.injEq, Prod.mk.injEq, true_and, and_true] at hd
  obtain ⟨nodes, edges⟩ := hd
  cases d
  cases d'
  rw [GraphData.mk.injEq]
  exact ⟨tells_list (fun n hn => tells_graphNode (h.nodes n hn)) _ nodes,
    tells_list (fun e he => tells_graphEdge (h.edges e he) (h.ratings e he)) _ edges⟩

/-! ### Options -/

/-- The fractions of an update. -/
def LayoutOptionsUpdate.fractions (u : LayoutOptionsUpdate) : List (Option Float) :=
  [u.width, u.height, u.nodeSpacing, u.padding, u.gravity, u.charge, u.linkDistance, u.linkStrength,
    u.velocityDamping, u.velocityDecay]

/-- All fractions that are there are finite. -/
def LayoutOptionsUpdate.AllFinite (u : LayoutOptionsUpdate) : Prop :=
  ∀ o ∈ u.fractions, ∀ x ∈ o, x.isFinite = true

/-- What a missing value and a value are written as can be told apart. -/
theorem encode_option_injective {α : Type} [Wire α] {o o' : Option α} (ne : ∀ a, a ∈ o ∨ a ∈ o' → encode a ≠ .null)
    (cancel : ∀ a ∈ o, ∀ b ∈ o', encode a = encode b → a = b) (h : encode o = encode o') : o = o' := by
  cases o with
  | none =>
    cases o' with
    | none => rfl
    | some b => exact absurd h.symm (ne b (.inr rfl))
  | some a =>
    cases o' with
    | none => exact absurd h (ne a (.inl rfl))
    | some b => rw [cancel a rfl b rfl h]

theorem encode_fraction_injective {o o' : Option Float} (ho : ∀ x ∈ o, x.isFinite = true)
    (ho' : ∀ x ∈ o', x.isFinite = true) (h : encode o = encode o') : o = o' := by
  refine encode_option_injective (fun x hx => ?_) (fun x hx y _ hxy => ofFloat_cancel (ho x hx) hxy) h
  have finite : x.isFinite = true := hx.elim (ho x) (ho' x)
  simp [encode, ofFloat, finite]

theorem encode_count_injective {o o' : Option Nat} (h : encode o = encode o') : o = o' :=
  encode_option_injective (fun n _ => encode_ne_null n) (fun _ _ _ _ hn => encode_injective hn) h

instance : PlainWire LayoutOptionsUpdate where
  plain u := by
    have h : PlainFields [put "width" u.width, put "height" u.height, put "nodeSpacing" u.nodeSpacing,
        put "padding" u.padding, put "iterations" u.iterations, put "gravity" u.gravity, put "charge" u.charge,
        put "linkDistance" u.linkDistance, put "linkStrength" u.linkStrength,
        put "velocityDamping" u.velocityDamping, put "velocityDecay" u.velocityDecay, put "seed" u.seed] :=
      .put <| .put <| .put <| .put <| .put <| .put <| .put <| .put <| .put <| .put <| .put <| .put .nil
    exact plain_object h

theorem LayoutOptionsUpdate.encode_cancel {u u' : LayoutOptionsUpdate} (hu : u.AllFinite) (hu' : u'.AllFinite)
    (h : encode u = encode u') : u = u' := by
  have fields := Json.obj.inj h
  simp only [List.cons.injEq, Prod.mk.injEq, true_and, and_true] at fields
  obtain ⟨width, height, nodeSpacing, padding, iterations, gravity, charge, linkDistance, linkStrength,
    velocityDamping, velocityDecay, seed⟩ := fields
  have fractions : u.fractions = u'.fractions := by
    refine eq_of_map_eq (f := encode) (fun o ho o' ho' => encode_fraction_injective (hu o ho) (hu' o' ho')) ?_
    simp only [fractions, List.map_cons, width, height, nodeSpacing, padding, gravity, charge, linkDistance,
      linkStrength, velocityDamping, velocityDecay, List.map_nil]
  simp only [LayoutOptionsUpdate.fractions, List.cons.injEq, and_true] at fractions
  have iterations := encode_count_injective iterations
  have seed := encode_count_injective seed
  cases u
  cases u'
  simp_all only

/-! ### Requests -/

/-- What is hashed of a request. -/
def layoutTexts (d : GraphData) (u : LayoutOptionsUpdate) : List String :=
  [(d.toJson ofSingle).compact, (encode u).compact]

/-- The key tells the algorithm and the digest. -/
theorem Engine.layoutKey_cancel {d d' : GraphData} {algorithm algorithm' : String} {u u' : LayoutOptionsUpdate}
    (h : layoutKey d algorithm u = layoutKey d' algorithm' u') :
    algorithm = algorithm' ∧ Digest.ofTexts (layoutTexts d u) = Digest.ofTexts (layoutTexts d' u') := by
  have chars := congrArg String.toList h
  simp only [layoutKey, String.toList_append, List.append_assoc] at chars
  obtain ⟨name, digits⟩ := List.append_inj' chars (by simp [Digest.length_hex])
  have digits := List.append_cancel_left digits
  exact ⟨String.toList_inj.mp name, Digest.hex_injective (String.toList_inj.mp digits)⟩

/-- The texts tell the graph and the options, as long as numbers are finite. -/
theorem layoutTexts_cancel {d d' : GraphData} {u u' : LayoutOptionsUpdate} (hd : d.AllFinite) (hu : u.AllFinite)
    (hu' : u'.AllFinite) (h : layoutTexts d u = layoutTexts d' u') : d = d' ∧ u = u' := by
  obtain ⟨graph, options⟩ := List.cons.inj h
  have options := compact_injective (plain u) (plain u') (List.cons.inj options).1
  exact ⟨tells_graphData hd d' (written_of_compact graph), LayoutOptionsUpdate.encode_cancel hu hu' options⟩

end CodeAtlas
