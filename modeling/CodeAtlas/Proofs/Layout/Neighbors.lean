import CodeAtlas.Proofs.Graph.Components
import CodeAtlas.Proofs.Layout.Levels

/-! The neighbours that a simulation sees.

A simulation lists neighbours by their places, and a graph view by their ids, each in its
own order and from an index of its own. Both tell the same: an edge between two different
nodes makes each a neighbour of the other, however often it is there and whichever way it
points (`Force.mem_neighborsOf`, `SymbolGraph.mem_neighbors_ofGraphData`). An id stands for
the last place it has, so with distinct ids every place counts. -/
namespace CodeAtlas

namespace GraphData

variable {d : GraphData} {i : Nat}

/-- Where ids are distinct, every place is the last one of its id. -/
theorem lastAt_iff_of_nodup (h : d.ids.Nodup) {id : String} : d.LastAt id i ↔ d.ids[i]? = some id := by
  refine ⟨And.left, fun hi => ⟨hi, fun j hj hsame => ?_⟩⟩
  obtain ⟨hlt, hid⟩ := List.getElem?_eq_some_iff.mp hi
  obtain ⟨hlt', hid'⟩ := List.getElem?_eq_some_iff.mp hsame
  exact Nat.ne_of_lt hj ((h.getElem_inj_iff).mp (hid.trans hid'.symm))

theorem LastAt.mem {id : String} (h : d.LastAt id i) : id ∈ d.ids := List.mem_of_getElem? h.1

theorem LastAt.unique {id : String} {j : Nat} (h : d.LastAt id i) (h' : d.LastAt id j) : i = j := by
  refine Nat.le_antisymm (Nat.le_of_not_lt fun hlt => ?_) (Nat.le_of_not_lt fun hlt => ?_)
  · exact h'.2 i hlt h.1
  · exact h.2 j hlt h'.1

/-- Two places are joined by an edge exactly if they are the last places of two ids that touch. -/
theorem feeds_or_feeds_iff {j : Nat} :
    d.Feeds i j ∨ d.Feeds j i ↔ ∃ a b, d.LastAt a i ∧ d.LastAt b j ∧ b ≠ a ∧ d.Touches a b := by
  constructor
  · rintro (⟨hne, e, he, hs, ht⟩ | ⟨hne, e, he, hs, ht⟩)
    · exact ⟨_, _, hs, ht, fun heq => hne (hs.unique (heq ▸ ht)), hs.mem, ht.mem, e, he, .inl ⟨rfl, rfl⟩⟩
    · exact ⟨_, _, ht, hs, fun heq => hne (hs.unique (heq ▸ ht)), ht.mem, hs.mem, e, he, .inr ⟨rfl, rfl⟩⟩
  · rintro ⟨a, b, ha, hb, hne, -, -, e, he, ⟨rfl, rfl⟩ | ⟨rfl, rfl⟩⟩
    · refine .inl ⟨?_, e, he, ha, hb⟩
      rintro rfl
      exact hne (Option.some.inj (hb.1.symm.trans ha.1))
    · refine .inr ⟨?_, e, he, hb, ha⟩
      rintro rfl
      exact hne (Option.some.inj (hb.1.symm.trans ha.1))

end GraphData

namespace SymbolGraph

/-- The neighbours of an id are the other ids that it touches. -/
theorem mem_neighbors_ofGraphData {d : GraphData} {id other : String} :
    other ∈ (ofGraphData d).neighbors id ↔ other ≠ id ∧ d.Touches id other := by
  have h := inStep_ofGraphData d
  rw [h.mem_neighbors_iff, h.successors_eq, h.predecessors_eq, links_ofGraphData]
  refine and_congr_right fun _ => ?_
  simp only [List.mem_map, List.mem_filter, beq_iff_eq, decide_eq_true_eq, GraphData.Touches]
  constructor
  · rintro (⟨_, ⟨⟨e, ⟨he, hs, ht⟩, rfl⟩, rfl⟩, rfl⟩ | ⟨_, ⟨⟨e, ⟨he, hs, ht⟩, rfl⟩, rfl⟩, rfl⟩)
    · exact ⟨hs, ht, e, he, .inl ⟨rfl, rfl⟩⟩
    · exact ⟨ht, hs, e, he, .inr ⟨rfl, rfl⟩⟩
  · rintro ⟨hid, hother, e, he, ⟨rfl, rfl⟩ | ⟨rfl, rfl⟩⟩
    · exact .inl ⟨_, ⟨⟨e, ⟨he, hid, hother⟩, rfl⟩, rfl⟩, rfl⟩
    · exact .inr ⟨_, ⟨⟨e, ⟨he, hother, hid⟩, rfl⟩, rfl⟩, rfl⟩

end SymbolGraph

namespace Force

variable {d : GraphData} {i j : Nat}

theorem otherEnd?_eq_some_iff {link : Nat × Nat} : otherEnd? i link = some j ↔ link = (i, j) ∨ link = (j, i) := by
  obtain ⟨s, t⟩ := link
  simp only [otherEnd?, beq_iff_eq, Prod.mk.injEq]
  by_cases hs : s = i
  · rw [if_pos hs]
    grind
  · rw [if_neg hs]
    grind

/-- A link makes each of its ends a neighbour of the other. -/
theorem mem_neighborsOf {links : List (Nat × Nat)} :
    j ∈ neighborsOf links i ↔ (i, j) ∈ links ∨ (j, i) ∈ links := by
  have hfirsts : j ∈ neighborsOf links i ↔ j ∈ links.filterMap (otherEnd? i) := by
    refine ⟨mem_firstsBy, fun hj => ?_⟩
    obtain ⟨k, hk, rfl⟩ := exists_firstsBy (fun k : Nat => k) hj
    exact hk
  simp only [hfirsts, List.mem_filterMap, otherEnd?_eq_some_iff]
  grind

theorem nodup_neighborsOf (links : List (Nat × Nat)) (i : Nat) : (neighborsOf links i).Nodup := by
  have hnodup := nodup_firstsBy (fun j : Nat => j) (links.filterMap (otherEnd? i))
  rwa [List.map_id'] at hnodup

theorem mem_neighborsOf_links : j ∈ neighborsOf (links d) i ↔ d.Feeds i j ∨ d.Feeds j i := by
  rw [mem_neighborsOf, mem_links, mem_links]

theorem getElem?_adjacency (d : GraphData) (i : Nat) :
    (adjacency d)[i]? = if i < d.nodes.length then some (neighborsOf (links d) i) else none := by
  simp only [adjacency, List.getElem?_map]
  split
  · rename_i hi
    rw [List.getElem?_range hi, Option.map_some]
  · rename_i hi
    rw [List.getElem?_eq_none (by simpa using hi), Option.map_none]

/-- However the edges are, the simulation has a list of neighbours for every node. No node
is in its own list or twice in one, and each of two nodes is in the list of the other or
neither is. If the ids are distinct, these are the nodes whose ids the graph view has as
neighbours. -/
theorem neighbors_agree (d : GraphData) :
    (adjacency d).length = d.nodes.length ∧
    ∀ (i : Nat) near, (adjacency d)[i]? = some near →
      near.Nodup ∧ i ∉ near ∧
      (∀ j, j ∈ near ↔ ∃ far, (adjacency d)[j]? = some far ∧ i ∈ far) ∧
      (d.ids.Nodup → ∀ j, j ∈ near ↔ ∃ n m, d.nodes[i]? = some n ∧ d.nodes[j]? = some m ∧
        m.id ∈ (SymbolGraph.ofGraphData d).neighbors n.id) := by
  refine ⟨by simp [adjacency], fun i near hnear => ?_⟩
  obtain ⟨hi, rfl⟩ : i < d.nodes.length ∧ neighborsOf (links d) i = near := by
    simpa [getElem?_adjacency] using hnear
  refine ⟨nodup_neighborsOf _ i, fun hself => ?_, fun j => ?_, fun hdistinct j => ?_⟩
  · obtain ⟨hne, -⟩ | ⟨hne, -⟩ := mem_neighborsOf_links.mp hself <;> exact hne rfl
  · rw [mem_neighborsOf_links]
    constructor
    · intro hfeeds
      have hj : j < d.nodes.length := hfeeds.elim (·.target_lt) (·.source_lt)
      exact ⟨neighborsOf (links d) j, by rw [getElem?_adjacency, if_pos hj], mem_neighborsOf_links.mpr hfeeds.symm⟩
    · rintro ⟨far, hfar, hmem⟩
      obtain ⟨-, rfl⟩ : j < d.nodes.length ∧ neighborsOf (links d) j = far := by
        simpa [getElem?_adjacency] using hfar
      exact (mem_neighborsOf_links.mp hmem).symm
  · have hplace (k : Nat) (id : String) : d.LastAt id k ↔ ∃ n, d.nodes[k]? = some n ∧ n.id = id := by
      rw [GraphData.lastAt_iff_of_nodup hdistinct, GraphData.ids, List.getElem?_map, Option.map_eq_some_iff]
    simp only [mem_neighborsOf_links, GraphData.feeds_or_feeds_iff, hplace, SymbolGraph.mem_neighbors_ofGraphData]
    constructor
    · rintro ⟨_, _, ⟨n, hn, rfl⟩, ⟨m, hm, rfl⟩, htouch⟩
      exact ⟨n, m, hn, hm, htouch⟩
    · rintro ⟨n, m, hn, hm, htouch⟩
      exact ⟨_, _, ⟨n, hn, rfl⟩, ⟨m, hm, rfl⟩, htouch⟩

/-- One edge in both directions, one from below, a loop, and one that leads nowhere. -/
def tangled : GraphData :=
  { nodes := ["a", "b", "c"].map fun id => { (default : GraphNode) with id }
    edges := [("a", "b"), ("b", "a"), ("c", "b"), ("c", "c"), ("c", "d")].map fun (source, target) =>
      { (default : GraphEdge) with source, target } }

/-- The node between the two others has both as neighbours, and no other. -/
theorem tangled_neighbors_agree :
    (adjacency tangled)[1]? = some [0, 2] ∧ tangled.ids.Nodup ∧
    ∀ j, j ∈ [0, 2] ↔ ∃ n m, tangled.nodes[1]? = some n ∧ tangled.nodes[j]? = some m ∧
      m.id ∈ (SymbolGraph.ofGraphData tangled).neighbors n.id := by
  have hnear : (adjacency tangled)[1]? = some [0, 2] := by decide
  have hdistinct : tangled.ids.Nodup := by decide
  exact ⟨hnear, hdistinct, ((neighbors_agree tangled).2 1 [0, 2] hnear).2.2.2 hdistinct⟩

end Force

end CodeAtlas
