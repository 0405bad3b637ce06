import CodeAtlas.Graph.Data
import CodeAtlas.Proofs.Json.Compact
import CodeAtlas.Proofs.Json.Wire
import CodeAtlas.Query.Search

/-! Symbols, relationships, queries and results are read back from their JSON forms.

Fractions have to be finite, and relationships without a strength. Queries and scopes
have no fractions at all, so their text determines them. -/
namespace CodeAtlas
open Json

/-! ### Symbols -/

instance : LawfulWire SymbolKind := ⟨fun k => named?_name k (by cases k <;> rfl), fun _ => str_ne_null _⟩

instance : LawfulWire Language := ⟨fun l => named?_name l (by cases l <;> rfl), fun _ => str_ne_null _⟩

instance : LawfulWire Visibility := ⟨fun v => named?_name v (by cases v <;> rfl), fun _ => str_ne_null _⟩

instance : LawfulWire Position :=
  ⟨fun _ => decode?_of_reads (.required rfl (.required rfl reads_pure)), fun _ => obj_ne_null _⟩

instance : LawfulWire Range :=
  ⟨fun _ => decode?_of_reads (.required rfl (.required rfl reads_pure)), fun _ => obj_ne_null _⟩

instance : LawfulWire Location :=
  ⟨fun _ => decode?_of_reads (.required rfl (.required rfl reads_pure)), fun _ => obj_ne_null _⟩

instance : LawfulWire SymbolMetadata where
  decode?_encode _ := by
    refine decode?_of_reads (.required ?_ <| .required ?_ <| .required ?_ <| .required ?_ <| .withDefault ?_ <|
      .optional ?_ <| .optional ?_ <| .optional ?_ reads_pure)
    all_goals simp
  encode_ne_null _ := obj_ne_null _

instance : LawfulWire Symbol where
  decode?_encode _ := by
    refine decode?_of_reads (.required ?_ <| .required ?_ <| .required ?_ <| .required ?_ <| .optional ?_ <|
      .required ?_ <| .withDefault ?_ reads_pure)
    all_goals simp
  encode_ne_null _ := obj_ne_null _

/-! ### Relationships -/

instance : LawfulWire RelationshipType := ⟨fun t => named?_name t (by cases t <;> rfl), fun _ => str_ne_null _⟩

instance : LawfulWire Cardinality := ⟨fun c => named?_name c (by cases c <;> rfl), fun _ => str_ne_null _⟩

instance : LawfulWire EdgeDirection := ⟨fun d => named?_name d (by cases d <;> rfl), fun _ => str_ne_null _⟩

/-- A relationship without a strength. -/
def Relationship.IsUnrated (r : Relationship) : Prop := r.metadata.strength = none

theorem decode?_encode_relationshipMetadata {m : RelationshipMetadata} (h : m.strength = none) :
    decode? (encode m) = some m := by
  refine decode?_of_reads (reads_bind (reads_optional (o := m.strength) ?_ ?_) <| .optional ?_ <| .optional ?_ <|
    .withDefault ?_ reads_pure)
  · simp [h]
  · simp [h]
  all_goals simp

theorem decode?_encode_relationship {r : Relationship} (h : r.IsUnrated) : decode? (encode r) = some r :=
  decode?_of_reads (.required rfl <| .required rfl <| .required rfl <|
    reads_bind (reads_withDefault rfl (decode?_encode_relationshipMetadata h)) reads_pure)

/-! ### Results and graphs -/

theorem decode?_encode_queryResult {r : QueryResult} (hr : ∀ x ∈ r.relationships, x.IsUnrated)
    (ht : r.executionTimeMs.isFinite = true) : decode? (encode r) = some r :=
  have hrelationships := decode?_encode_list fun x hx => decode?_encode_relationship (hr x hx)
  decode?_of_reads (.required rfl <| reads_bind (reads_required rfl hrelationships) <| .required rfl <|
    reads_bind (reads_required rfl (decode?_encode_float ht)) <| .withDefault rfl reads_pure)

/-- A node not pinned anywhere, all of whose numbers are finite. -/
structure GraphNode.IsLoose (n : GraphNode) : Prop where
  x : n.x.isFinite = true
  y : n.y.isFinite = true
  vx : n.vx.isFinite = true
  vy : n.vy.isFinite = true
  fx : n.fx = none
  fy : n.fy = none
  size : n.size.isFinite = true

theorem decode?_encode_graphNode {n : GraphNode} (h : n.IsLoose) : decode? (encode n) = some n := by
  obtain ⟨hx, hy, hvx, hvy, hfx, hfy, hsize⟩ := h
  refine decode?_of_reads (.required ?_ <| .required ?_ <|
    reads_bind (reads_required ?_ (decode?_encode_float hx)) <|
    reads_bind (reads_required ?_ (decode?_encode_float hy)) <|
    reads_bind (reads_required ?_ (decode?_encode_float hvx)) <|
    reads_bind (reads_required ?_ (decode?_encode_float hvy)) <|
    reads_bind (reads_optional (o := n.fx) ?_ ?_) <| reads_bind (reads_optional (o := n.fy) ?_ ?_) <|
    reads_bind (reads_required ?_ (decode?_encode_float hsize)) <|
    .required ?_ <| .required ?_ <| .withDefault ?_ reads_pure)
  all_goals simp [hfx, hfy]

structure GraphEdge.IsFinite (e : GraphEdge) : Prop where
  relationship : e.relationship.IsUnrated
  strength : e.strength.isFinite = true
  width : e.width.isFinite = true

theorem decode?_encode_graphEdge {e : GraphEdge} (h : e.IsFinite) : decode? (encode e) = some e :=
  decode?_of_reads (.required rfl <| .required rfl <|
    reads_bind (reads_required rfl (decode?_encode_relationship h.relationship)) <|
    reads_bind (reads_required rfl (decode?_encode_float h.strength)) <| .required rfl <|
    reads_bind (reads_required rfl (decode?_encode_float h.width)) reads_pure)

theorem decode?_encode_graphData {d : GraphData} (hn : ∀ n ∈ d.nodes, n.IsLoose) (he : ∀ e ∈ d.edges, e.IsFinite) :
    decode? (encode d) = some d :=
  decode?_of_reads (reads_bind (reads_required rfl (decode?_encode_list fun n h => decode?_encode_graphNode (hn n h))) <|
    reads_bind (reads_required rfl (decode?_encode_list fun e h => decode?_encode_graphEdge (he e h))) reads_pure)

/-! ### Queries and scopes -/

instance : LawfulWire TraversalDirection := ⟨fun d => named?_name d (by cases d <;> rfl), fun _ => str_ne_null _⟩

instance : LawfulWire QuerySelect where
  decode?_encode _ := by
    refine decode?_of_reads (.optional ?_ <| .optional ?_ reads_pure)
    all_goals simp
  encode_ne_null _ := obj_ne_null _

instance : LawfulWire QueryFilter where
  decode?_encode _ := by
    refine decode?_of_reads (.optional ?_ <| .optional ?_ <| .optional ?_ <| .optional ?_ <| .optional ?_ <|
      .optional ?_ <| .optional ?_ <| .optional ?_ <| .optional ?_ <| .optional ?_ <| .optional ?_ reads_pure)
    all_goals simp
  encode_ne_null _ := obj_ne_null _

instance : LawfulWire Traversal where
  decode?_encode _ := by
    refine decode?_of_reads (.required ?_ <| .withDefault ?_ <| .optional ?_ reads_pure)
    all_goals simp
  encode_ne_null _ := obj_ne_null _

instance : LawfulWire GraphQuery where
  decode?_encode _ := by
    refine decode?_of_reads (.required ?_ <| .optional ?_ <| .optional ?_ <| .optional ?_ <| .optional ?_ reads_pure)
    all_goals simp
  encode_ne_null _ := obj_ne_null _

instance : LawfulWire QueryScope :=
  ⟨fun _ => decode?_of_reads (.withDefault rfl <| .withDefault rfl <| .withDefault rfl reads_pure), fun _ => obj_ne_null _⟩

/-! ### Texts of queries and scopes -/

instance : PlainWire SymbolKind := ⟨fun k => .str k.name⟩

instance : PlainWire Language := ⟨fun l => .str l.name⟩

instance : PlainWire RelationshipType := ⟨fun t => .str t.name⟩

instance : PlainWire TraversalDirection := ⟨fun d => .str d.name⟩

instance : PlainWire QuerySelect := ⟨fun _ => plain_object (.putSome <| .putSome .nil)⟩

instance : PlainWire QueryFilter :=
  ⟨fun _ => plain_object (.putSome <| .putSome <| .putSome <| .putSome <| .putSome <| .putSome <| .putSome <|
    .putSome <| .putSome <| .putSome <| .putSome .nil)⟩

instance : PlainWire Traversal := ⟨fun _ => plain_object (.put <| .put <| .putSome .nil)⟩

instance : PlainWire GraphQuery :=
  ⟨fun _ => plain_object (.put <| .putSome <| .putSome <| .putSome <| .putSome .nil)⟩

instance : PlainWire QueryScope where
  plain s := by
    have h : PlainFields
        [put "paths" s.paths, put "languages" s.languages, put "includeTests" s.includeTests] :=
      .put <| .put <| .put .nil
    exact plain_object h

/-- A query and a scope are determined by the text they are kept under. -/
theorem GraphQuery.eq_of_cacheKey_eq {q q' : GraphQuery} {scope scope' : QueryScope}
    (h : q.cacheKey scope = q'.cacheKey scope') : q = q' ∧ scope = scope' := by
  obtain ⟨hq, hs⟩ := compact_bar_cancel (plain q) (plain q') (plain scope) (plain scope') h
  exact ⟨encode_injective hq, encode_injective hs⟩

end CodeAtlas
