import CodeAtlas.Proofs.Json.Models
import Mathlib.Data.List.Nodup

/-! Graphs made of symbols and relationships.

Every id has one node, and every relationship between two nodes an edge, unless its ends
read like those of another one. Nodes are not placed yet and their numbers are constants,
so they are read back from their JSON form if the relationships are. -/
namespace CodeAtlas

theorem mem_firstsBy_go {α β : Type} [BEq β] {key : α → β} {seen : List β} {xs : List α} {x : α}
    (h : x ∈ firstsBy.go key seen xs) : x ∈ xs := by
  induction xs generalizing seen with
  | nil => exact h
  | cons y rest ih =>
    rw [firstsBy.go] at h
    split at h
    · exact List.mem_cons_of_mem y (ih h)
    · exact (List.mem_cons.mp h).elim (fun h => h ▸ List.mem_cons_self) fun h => List.mem_cons_of_mem y (ih h)

theorem mem_firstsBy {α β : Type} [BEq β] {key : α → β} {xs : List α} {x : α} (h : x ∈ firstsBy key xs) :
    x ∈ xs :=
  mem_firstsBy_go h

/-- The firsts have different keys, none of which was seen before. -/
theorem nodup_firstsBy_go {α β : Type} [BEq β] [LawfulBEq β] (key : α → β) (seen : List β) (xs : List α) :
    ((firstsBy.go key seen xs).map key).Nodup ∧ ∀ k ∈ (firstsBy.go key seen xs).map key, k ∉ seen := by
  induction xs generalizing seen with
  | nil => exact ⟨List.nodup_nil, nofun⟩
  | cons x rest ih =>
    rw [firstsBy.go]
    split
    · exact ih seen
    · rename_i hx
      obtain ⟨hnodup, hnew⟩ := ih (key x :: seen)
      rw [List.map_cons]
      refine ⟨List.nodup_cons.mpr ⟨fun h => hnew _ h List.mem_cons_self, hnodup⟩, fun k hk => ?_⟩
      rcases List.mem_cons.mp hk with rfl | hk
      · simpa using hx
      · exact fun hseen => hnew k hk (List.mem_cons_of_mem _ hseen)

theorem nodup_firstsBy {α β : Type} [BEq β] [LawfulBEq β] (key : α → β) (xs : List α) :
    ((firstsBy key xs).map key).Nodup :=
  (nodup_firstsBy_go key [] xs).1

/-- Every key that was not seen before has a first. -/
theorem exists_firstsBy_go {α β : Type} [BEq β] [LawfulBEq β] {key : α → β} {seen : List β} {xs : List α} {x : α}
    (hx : x ∈ xs) (hnew : key x ∉ seen) : ∃ y ∈ firstsBy.go key seen xs, key y = key x := by
  induction xs generalizing seen with
  | nil => cases hx
  | cons y rest ih =>
    rw [firstsBy.go]
    by_cases heq : key y = key x
    · rw [if_neg (by simpa [heq] using hnew)]
      exact ⟨y, List.mem_cons_self, heq⟩
    · have hrest : x ∈ rest := (List.mem_cons.mp hx).resolve_left fun h => heq (congrArg key h).symm
      split
      · exact ih hrest hnew
      · have hseen : key x ∉ key y :: seen := by simp [hnew, Ne.symm heq]
        obtain ⟨z, hz, hkey⟩ := ih hrest hseen
        exact ⟨z, List.mem_cons_of_mem _ hz, hkey⟩

theorem exists_firstsBy {α β : Type} [BEq β] [LawfulBEq β] (key : α → β) {xs : List α} {x : α} (hx : x ∈ xs) :
    ∃ y ∈ firstsBy key xs, key y = key x :=
  exists_firstsBy_go hx List.not_mem_nil

theorem finite_zero : (0.0 : Float).isFinite = true := by decide

theorem GraphNode.loose_ofSymbol (s : Symbol) : (GraphNode.ofSymbol s).IsLoose where
  x := finite_zero
  y := finite_zero
  vx := finite_zero
  vy := finite_zero
  fx := rfl
  fy := rfl
  size := by
    show (if s.kind.isContainer then (14.0 : Float) else 8.0).isFinite = true
    split <;> decide

theorem GraphEdge.finite_ofRelationship {r : Relationship} (h : r.IsUnrated) :
    (GraphEdge.ofRelationship r).IsFinite := by
  have hstrength : (r.metadata.strength.map Decimal.widen).getD 1.0 = 1.0 := by rw [h]; rfl
  refine ⟨h, ?_, ?_⟩
  · show ((r.metadata.strength.map Decimal.widen).getD 1.0).isFinite = true
    rw [hstrength]
    decide
  · show (1.0 + (r.metadata.strength.map Decimal.widen).getD 1.0).isFinite = true
    rw [hstrength]
    decide

namespace GraphData

/-- Without symbols there is nothing. -/
theorem ofParts_nil (relationships : List Relationship) : ofParts [] relationships = {} := by
  have hinside : relationships.filter (fun r => ([] : List String).contains r.sourceId && [].contains r.targetId) = [] :=
    List.filter_eq_nil_iff.mpr (by simp)
  show ({ nodes := [], edges := (firstsBy _ (relationships.filter fun r =>
    ([] : List String).contains r.sourceId && [].contains r.targetId)).map _ } : GraphData) = {}
  rw [hinside]
  rfl

variable {symbols : List Symbol} {relationships : List Relationship}

/-- The ids of the nodes. -/
def ids (d : GraphData) : List String := d.nodes.map GraphNode.id

theorem ids_ofParts (symbols : List Symbol) (relationships : List Relationship) :
    (ofParts symbols relationships).ids = (firstsBy Symbol.id symbols).map Symbol.id := by
  rw [ids, ofParts, List.map_map]
  rfl

theorem nodup_ids_ofParts (symbols : List Symbol) (relationships : List Relationship) :
    (ofParts symbols relationships).ids.Nodup :=
  ids_ofParts symbols relationships ▸ nodup_firstsBy Symbol.id symbols

/-- Every node is that of a symbol. -/
theorem mem_nodes_ofParts {n : GraphNode} (h : n ∈ (ofParts symbols relationships).nodes) :
    ∃ s ∈ symbols, n = GraphNode.ofSymbol s := by
  obtain ⟨s, hs, rfl⟩ := List.mem_map.mp h
  exact ⟨s, mem_firstsBy hs, rfl⟩

/-- The symbols of one id have a node. -/
theorem mem_ids_ofParts {id : String} :
    id ∈ (ofParts symbols relationships).ids ↔ id ∈ symbols.map Symbol.id := by
  rw [ids_ofParts, List.mem_map, List.mem_map]
  constructor
  · rintro ⟨s, hs, rfl⟩
    exact ⟨s, mem_firstsBy hs, rfl⟩
  · rintro ⟨s, hs, rfl⟩
    obtain ⟨first, hfirst, hid⟩ := exists_firstsBy Symbol.id hs
    exact ⟨first, hfirst, hid⟩

/-- The relationships between nodes of a graph. -/
def inside (d : GraphData) (relationships : List Relationship) : List Relationship :=
  relationships.filter fun r => d.ids.contains r.sourceId && d.ids.contains r.targetId

theorem mem_inside {d : GraphData} {r : Relationship} :
    r ∈ d.inside relationships ↔ r ∈ relationships ∧ r.sourceId ∈ d.ids ∧ r.targetId ∈ d.ids := by
  rw [inside, List.mem_filter, Bool.and_eq_true, List.contains_iff_mem, List.contains_iff_mem]

/-- What edges there are. -/
theorem edges_ofParts (symbols : List Symbol) (relationships : List Relationship) :
    (ofParts symbols relationships).edges = (firstsBy (fun r => (r.key, r.kind))
      ((ofParts symbols relationships).inside relationships)).map GraphEdge.ofRelationship := by
  rw [inside, ids_ofParts]
  rfl

/-- Every edge is that of a relationship between two nodes. -/
theorem mem_edges_ofParts {e : GraphEdge} (h : e ∈ (ofParts symbols relationships).edges) :
    ∃ r ∈ (ofParts symbols relationships).inside relationships, e = GraphEdge.ofRelationship r := by
  rw [edges_ofParts] at h
  obtain ⟨r, hr, rfl⟩ := List.mem_map.mp h
  exact ⟨r, mem_firstsBy hr, rfl⟩

/-- A relationship between two nodes has an edge, which may be that of another one whose
ends are the same when they are written in one text. -/
theorem exists_edge_ofParts {r : Relationship} (hr : r ∈ (ofParts symbols relationships).inside relationships) :
    ∃ r' ∈ (ofParts symbols relationships).inside relationships, r'.key = r.key ∧ r'.kind = r.kind ∧
      GraphEdge.ofRelationship r' ∈ (ofParts symbols relationships).edges := by
  obtain ⟨r', hr', hkey⟩ := exists_firstsBy (fun r : Relationship => (r.key, r.kind)) hr
  refine ⟨r', mem_firstsBy hr', congrArg Prod.fst hkey, congrArg Prod.snd hkey, ?_⟩
  rw [edges_ofParts]
  exact List.mem_map_of_mem hr'

/-- No two edges have the same ends and type. -/
theorem nodup_edges_ofParts (symbols : List Symbol) (relationships : List Relationship) :
    ((ofParts symbols relationships).edges.map fun e => (e.source, e.target, e.relationship.kind)).Nodup := by
  refine List.Nodup.of_map (fun e : String × String × RelationshipType => (e.1 ++ "-" ++ e.2.1, e.2.2)) ?_
  rw [edges_ofParts, List.map_map, List.map_map]
  exact nodup_firstsBy (fun r : Relationship => (r.key, r.kind)) _

theorem decode?_encode_ofParts (symbols : List Symbol) {relationships : List Relationship}
    (h : ∀ r ∈ relationships, r.IsUnrated) :
    decode? (encode (ofParts symbols relationships)) = some (ofParts symbols relationships) := by
  refine decode?_encode_graphData (fun n hn => ?_) fun e he => ?_
  · obtain ⟨s, -, rfl⟩ := List.mem_map.mp hn
    exact GraphNode.loose_ofSymbol s
  · obtain ⟨r, hr, rfl⟩ := List.mem_map.mp he
    exact GraphEdge.finite_ofRelationship (h r (List.mem_filter.mp (mem_firstsBy hr)).1)

end GraphData

end CodeAtlas
