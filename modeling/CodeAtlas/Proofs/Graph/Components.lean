import CodeAtlas.Proofs.Graph.Search
import CodeAtlas.Proofs.Graph.Views
import Mathlib.Data.Sym.Sym2

/-! The connected components share out the nodes of a graph.

The nodes of a component are those joined to its first one, and every node is joined to
just one node that is joined to no earlier one; so the components hold every node once
(`nodup_connectedComponents`, `mem_connectedComponents`). The view of some data joins the
ids that its edges join (`joined_label_iff`), and which ids these are does not depend on
the order or the direction of the edges. -/
namespace CodeAtlas
open Relation

namespace Multigraph

variable {g : Multigraph} {u v w : Nat}

theorem mem_earliest : v ∈ g.earliest (List.range g.nodeCount) ↔ v < g.nodeCount ∧ ∀ u < v, ¬g.Joined u v := by
  simp [earliest]

/-- Every node is joined to an earliest one. -/
theorem exists_earliest (h : g.Bounded) (hv : v < g.nodeCount) :
    ∃ u ∈ g.earliest (List.range g.nodeCount), u ≤ v ∧ g.Joined u v := by
  classical
  have hexists : ∃ u, g.Joined u v := ⟨v, .refl⟩
  refine ⟨Nat.find hexists, mem_earliest.mpr ⟨?_, fun u hu hjoined => ?_⟩, Nat.find_min' hexists .refl,
    Nat.find_spec hexists⟩
  · exact h.lt_of_joined hv (Joined.symm (Nat.find_spec hexists))
  · exact Nat.find_min hexists hu (hjoined.trans (Nat.find_spec hexists))

/-- No two of the earliest nodes are joined. -/
theorem eq_of_joined_earliest (hu : u ∈ g.earliest (List.range g.nodeCount))
    (hv : v ∈ g.earliest (List.range g.nodeCount)) (h : g.Joined u v) : u = v := by
  obtain hlt | heq | hgt := Nat.lt_trichotomy u v
  · exact absurd h ((mem_earliest.mp hv).2 u hlt)
  · exact heq
  · exact absurd (Joined.symm h) ((mem_earliest.mp hu).2 v hgt)

theorem earliest_sorted (g : Multigraph) : (g.earliest (List.range g.nodeCount)).Pairwise (· < ·) :=
  List.pairwise_lt_range.filter _

/-- An earliest node is the first of those it is joined to. -/
theorem le_of_mem_reach (h : g.Bounded) (hu : u ∈ g.earliest (List.range g.nodeCount)) (hv : v ∈ g.reach u) : u ≤ v := by
  obtain ⟨hlt, -⟩ := mem_earliest.mp hu
  have hjoined := (mem_reach_iff h hlt).mp hv
  obtain ⟨u', hu', hle, hjoined'⟩ := exists_earliest h (h.lt_of_joined hlt hjoined)
  rwa [eq_of_joined_earliest hu hu' (hjoined.trans (Joined.symm hjoined'))]

theorem mem_components (h : g.Bounded) : v ∈ g.components.flatten ↔ v < g.nodeCount := by
  rw [components_eq h, List.mem_flatten]
  constructor
  · rintro ⟨c, hc, hv⟩
    obtain ⟨u, hu, rfl⟩ := List.mem_map.mp hc
    exact h.lt_of_joined (mem_earliest.mp hu).1 ((mem_reach_iff h (mem_earliest.mp hu).1).mp hv)
  · intro hv
    obtain ⟨u, hu, -, hjoined⟩ := exists_earliest h hv
    exact ⟨g.reach u, List.mem_map_of_mem hu, (mem_reach_iff h (mem_earliest.mp hu).1).mpr hjoined⟩

theorem nodup_components (h : g.Bounded) : g.components.flatten.Nodup := by
  rw [components_eq h, List.nodup_flatten]
  refine ⟨List.forall_mem_map.mpr fun u _ => g.nodup_reach u, List.pairwise_map.mpr ?_⟩
  refine g.earliest_sorted.imp_of_mem fun {u v} hu hv hlt w hwu hwv => ?_
  have hjoined := ((mem_reach_iff h (mem_earliest.mp hu).1).mp hwu).trans
    (Joined.symm ((mem_reach_iff h (mem_earliest.mp hv).1).mp hwv))
  exact Nat.ne_of_lt hlt (eq_of_joined_earliest hu hv hjoined)

end Multigraph

namespace GraphData

/-- The nodes of the data, and then its edges. -/
def additions (d : GraphData) : List GraphAddition :=
  d.nodes.map (fun n => .node n.id) ++ d.edges.map fun e => .edge e.source e.target e.relationship.kind

/-- An edge between two nodes of the data joins these two ids, in either direction. -/
def Touches (d : GraphData) (a b : String) : Prop :=
  a ∈ d.ids ∧ b ∈ d.ids ∧ ∃ e ∈ d.edges, (e.source = a ∧ e.target = b) ∨ (e.source = b ∧ e.target = a)

/-- The ends of an edge, whatever its direction. -/
def ends (e : GraphEdge) : Sym2 String := s(e.source, e.target)

theorem touches_iff {d : GraphData} {a b : String} :
    d.Touches a b ↔ a ∈ d.ids ∧ b ∈ d.ids ∧ s(a, b) ∈ d.edges.map ends := by
  simp only [Touches, List.mem_map, ends, Sym2.eq_iff]

end GraphData

namespace SymbolGraph
open GraphAddition

variable {g : SymbolGraph} {d : GraphData} {id : String} {v w : Nat}

/-! ### The view of graph data -/

theorem ofGraphData_eq (d : GraphData) : ofGraphData d = after d.additions := by
  rw [after, GraphData.additions, List.foldl_append, List.foldl_map, List.foldl_map]
  rfl

theorem inStep_ofGraphData (d : GraphData) : (ofGraphData d).InStep := by
  rw [ofGraphData_eq]
  exact (shows_after d.additions).inStep

theorem ids_map_node (nodes : List GraphNode) :
    GraphAddition.ids (nodes.map fun n => .node n.id) = nodes.map GraphNode.id := by
  rw [GraphAddition.ids, List.filterMap_map]
  exact congrFun List.filterMap_eq_map nodes

theorem ids_additions (d : GraphData) : GraphAddition.ids d.additions = d.ids := by
  have hedges : (d.edges.map fun e => GraphAddition.edge e.source e.target e.relationship.kind).filterMap id? = [] := by
    simp [List.filterMap_map, id?]
  rw [GraphAddition.ids, GraphData.additions, List.filterMap_append, hedges, List.append_nil]
  exact ids_map_node d.nodes

theorem nodes_ofGraphData (d : GraphData) : (ofGraphData d).nodes = d.ids.eraseDups := by
  rw [ofGraphData_eq, (shows_after d.additions).nodes, ids_additions]

theorem mem_nodes_ofGraphData : id ∈ (ofGraphData d).nodes ↔ id ∈ d.ids := by
  rw [nodes_ofGraphData, List.mem_eraseDups]

/-- The edges of the view are those of the data between known ids. -/
theorem links_ofGraphData (d : GraphData) :
    (ofGraphData d).inner.edges.map (ofGraphData d).link =
      (d.edges.filter fun e => e.source ∈ d.ids ∧ e.target ∈ d.ids).map fun e =>
        (e.source, e.target, e.relationship.kind) := by
  have hnodes : ∀ nodes : List GraphNode, ∀ known, linksFrom known (nodes.map fun n => .node n.id) = [] := by
    intro nodes
    induction nodes with
    | nil => exact fun _ => rfl
    | cons n rest ih => exact fun known => ih (n.id :: known)
  have hedges : ∀ known : List String, (∀ id, id ∈ known ↔ id ∈ d.ids) → ∀ edges : List GraphEdge,
      linksFrom known (edges.map fun e => .edge e.source e.target e.relationship.kind) =
        (edges.filter fun e => e.source ∈ d.ids ∧ e.target ∈ d.ids).map fun e =>
          (e.source, e.target, e.relationship.kind) := by
    intro known hknown edges
    induction edges with
    | nil => rfl
    | cons e rest ih =>
      simp only [List.map_cons, linksFrom, ih, hknown, List.filter_cons, decide_eq_true_eq]
      split <;> rfl
  rw [ofGraphData_eq, (shows_after d.additions).edges, GraphAddition.links, GraphData.additions, linksFrom_append, hnodes,
    List.nil_append]
  refine hedges _ (fun id => ?_) d.edges
  rw [List.append_nil, List.mem_reverse, ids_map_node]
  rfl

/-! ### Ids that are joined -/

theorem InStep.adjacent_iff (h : g.InStep) (hv : v < g.nodeCount) (hw : w < g.nodeCount) :
    g.inner.Adjacent v w ↔ ∃ l ∈ g.inner.edges.map g.link,
      (l.1 = g.inner.label v ∧ l.2.1 = g.inner.label w) ∨ (l.1 = g.inner.label w ∧ l.2.1 = g.inner.label v) := by
  simp only [List.mem_map, exists_exists_and_eq_and]
  refine exists_congr fun e => and_congr_right fun he => ?_
  obtain ⟨hs, ht⟩ := h.ends e he
  have hlabel {a b : Nat} (ha : a < g.nodeCount) (hb : b < g.nodeCount) : a = b ↔ g.inner.label a = g.inner.label b :=
    ⟨congrArg g.inner.label, h.label_inj ha hb⟩
  rw [hlabel hs hv, hlabel ht hw, hlabel hs hw, hlabel ht hv]
  rfl

theorem exists_label (hid : id ∈ d.ids) :
    ∃ v < (ofGraphData d).nodeCount, (ofGraphData d).inner.label v = id := by
  obtain ⟨v, hv⟩ := List.mem_iff_getElem?.mp (mem_nodes_ofGraphData.mpr hid)
  exact ⟨v, lt_nodeCount hv, label_eq hv⟩

theorem label_mem_ids (hv : v < (ofGraphData d).nodeCount) : (ofGraphData d).inner.label v ∈ d.ids :=
  mem_nodes_ofGraphData.mp (List.mem_of_getElem? (getElem?_nodes hv))

/-- Nodes are adjacent if their ids touch. -/
theorem adjacent_iff_touches (hv : v < (ofGraphData d).nodeCount) (hw : w < (ofGraphData d).nodeCount) :
    (ofGraphData d).inner.Adjacent v w ↔
      d.Touches ((ofGraphData d).inner.label v) ((ofGraphData d).inner.label w) := by
  have hvid := label_mem_ids hv
  have hwid := label_mem_ids hw
  rw [(inStep_ofGraphData d).adjacent_iff hv hw, links_ofGraphData]
  simp only [GraphData.Touches, hvid, hwid, true_and, List.mem_map, List.mem_filter, decide_eq_true_eq,
    exists_exists_and_eq_and]
  refine exists_congr fun e => ⟨fun ⟨⟨he, _⟩, hends⟩ => ⟨he, hends⟩, fun ⟨he, hends⟩ => ⟨⟨he, ?_⟩, hends⟩⟩
  obtain ⟨hs, ht⟩ | ⟨hs, ht⟩ := hends <;> simp [hs, ht, hvid, hwid]

/-- What an id is joined to has a node that its node is joined to. -/
theorem joined_of_touches {a b : String} (h : ReflTransGen d.Touches a b) (hv : v < (ofGraphData d).nodeCount)
    (ha : (ofGraphData d).inner.label v = a) :
    ∃ w < (ofGraphData d).nodeCount, (ofGraphData d).inner.label w = b ∧ (ofGraphData d).inner.Joined v w := by
  induction h with
  | refl => exact ⟨v, hv, ha, .refl⟩
  | tail _ htouch ih =>
    obtain ⟨u, hu, rfl, hjoined⟩ := ih
    obtain ⟨w, hw, rfl⟩ := exists_label htouch.2.1
    exact ⟨w, hw, rfl, hjoined.tail ((adjacent_iff_touches hu hw).mpr htouch)⟩

theorem joined_label_iff (hv : v < (ofGraphData d).nodeCount) (hw : w < (ofGraphData d).nodeCount) :
    (ofGraphData d).inner.Joined v w ↔
      ReflTransGen d.Touches ((ofGraphData d).inner.label v) ((ofGraphData d).inner.label w) := by
  have h := inStep_ofGraphData d
  constructor
  · refine ReflTransGen.lift (ofGraphData d).inner.label (fun a b hab => ?_) v w
    exact (adjacent_iff_touches (Multigraph.Bounded.lt_of_adjacent h.ends hab.symm)
      (Multigraph.Bounded.lt_of_adjacent h.ends hab)).mp hab
  · intro hjoined
    obtain ⟨u, hu, heq, hvu⟩ := joined_of_touches hjoined hv rfl
    rwa [h.label_inj hu hw heq] at hvu

/-! ### Components -/

/-- The ids of what a search finds from a node. -/
def idsFrom (g : SymbolGraph) (v : Nat) : List String := (g.inner.reach v).map g.inner.label

/-- The nodes that are joined to no earlier one. -/
noncomputable def starts (g : SymbolGraph) : List Nat := g.inner.earliest (List.range g.nodeCount)

theorem mem_starts : v ∈ g.starts ↔ v < g.nodeCount ∧ ∀ u < v, ¬g.inner.Joined u v := Multigraph.mem_earliest

theorem InStep.connectedComponents_eq (h : g.InStep) : g.connectedComponents = g.starts.map g.idsFrom := by
  rw [connectedComponents, Multigraph.components_eq h.ends, List.map_map]
  rfl

theorem InStep.mem_idsFrom (h : g.InStep) (hv : v < g.nodeCount) :
    id ∈ g.idsFrom v ↔ ∃ w < g.nodeCount, g.inner.Joined v w ∧ g.inner.label w = id := by
  rw [idsFrom, List.mem_map]
  refine exists_congr fun w => ?_
  rw [Multigraph.mem_reach_iff h.ends hv, ← and_assoc]
  exact and_congr_left fun _ => ⟨fun hw => ⟨Multigraph.Bounded.lt_of_joined h.ends hv hw, hw⟩, And.right⟩

theorem InStep.label_mem_idsFrom (h : g.InStep) (hv : v < g.nodeCount) (hw : w < g.nodeCount) :
    g.inner.label w ∈ g.idsFrom v ↔ g.inner.Joined v w := by
  rw [h.mem_idsFrom hv]
  refine ⟨fun ⟨u, hu, hjoined, hlabel⟩ => ?_, fun hjoined => ⟨w, hw, hjoined, rfl⟩⟩
  rwa [← h.label_inj hu hw hlabel]

theorem InStep.nodup_idsFrom (h : g.InStep) (hv : v < g.nodeCount) : (g.idsFrom v).Nodup := by
  refine (g.inner.nodup_reach v).map_on fun u hu w hw => ?_
  exact h.label_inj (Multigraph.Bounded.lt_of_joined h.ends hv ((Multigraph.mem_reach_iff h.ends hv).mp hu))
    (Multigraph.Bounded.lt_of_joined h.ends hv ((Multigraph.mem_reach_iff h.ends hv).mp hw))

/-- A component begins with its start, and the nodes after it have greater numbers. -/
theorem InStep.idsFrom_eq_cons (h : g.InStep) (hv : v ∈ g.starts) :
    ∃ rest, g.idsFrom v = g.inner.label v :: rest ∧
      ∀ id ∈ rest, ∃ w, v < w ∧ w < g.nodeCount ∧ g.inner.label w = id := by
  obtain ⟨hlt, -⟩ := mem_starts.mp hv
  obtain ⟨rest, hrest⟩ := Multigraph.reach_eq_cons hlt
  refine ⟨rest.map g.inner.label, by rw [idsFrom, hrest, List.map_cons], List.forall_mem_map.mpr fun w hw => ?_⟩
  have hmem : w ∈ g.inner.reach v := hrest ▸ List.mem_cons_of_mem v hw
  have hne : v ≠ w := by
    rintro rfl
    exact (List.nodup_cons.mp (hrest ▸ g.inner.nodup_reach v)).1 hw
  exact ⟨w, Nat.lt_of_le_of_ne (Multigraph.le_of_mem_reach h.ends hv hmem) hne,
    Multigraph.Bounded.lt_of_joined h.ends hlt ((Multigraph.mem_reach_iff h.ends hlt).mp hmem), rfl⟩

/-- Nodes are in one component if they are joined. -/
theorem InStep.together_iff (h : g.InStep) (hv : v < g.nodeCount) (hw : w < g.nodeCount) :
    (∃ c ∈ g.connectedComponents, g.inner.label v ∈ c ∧ g.inner.label w ∈ c) ↔ g.inner.Joined v w := by
  rw [h.connectedComponents_eq]
  constructor
  · rintro ⟨c, hc, hvc, hwc⟩
    obtain ⟨u, hu, rfl⟩ := List.mem_map.mp hc
    have hlt := (mem_starts.mp hu).1
    exact (Multigraph.Joined.symm ((h.label_mem_idsFrom hlt hv).mp hvc)).trans ((h.label_mem_idsFrom hlt hw).mp hwc)
  · intro hjoined
    obtain ⟨u, hu, -, huv⟩ := Multigraph.exists_earliest h.ends hv
    have hlt := (mem_starts.mp hu).1
    exact ⟨g.idsFrom u, List.mem_map_of_mem hu, (h.label_mem_idsFrom hlt hv).mpr huv,
      (h.label_mem_idsFrom hlt hw).mpr (huv.trans hjoined)⟩

theorem InStep.mem_connectedComponents (h : g.InStep) : id ∈ g.connectedComponents.flatten ↔ id ∈ g.nodes := by
  rw [connectedComponents, ← List.map_flatten, List.mem_map, nodes_eq, List.mem_map]
  refine exists_congr fun v => and_congr_left fun _ => ?_
  rw [Multigraph.mem_components h.ends, List.mem_range]
  rfl

theorem InStep.nodup_connectedComponents (h : g.InStep) : g.connectedComponents.flatten.Nodup := by
  rw [connectedComponents, ← List.map_flatten]
  refine (Multigraph.nodup_components h.ends).map_on fun v hv w hw => ?_
  exact h.label_inj ((Multigraph.mem_components h.ends).mp hv) ((Multigraph.mem_components h.ends).mp hw)

/-- Distinct ids come in the order in which each came first. -/
theorem idxOf_eraseDups (ids : List String) : ids.eraseDups.Pairwise fun a b => ids.idxOf a < ids.idxOf b := by
  induction ids using List.reverseRecOn with
  | nil => exact .nil
  | append_singleton ids id ih =>
    have hold : ids.eraseDups.Pairwise fun a b => (ids ++ [id]).idxOf a < (ids ++ [id]).idxOf b := by
      refine ih.imp_of_mem fun {a b} ha hb hlt => ?_
      rwa [List.idxOf_append_of_mem (List.mem_eraseDups.mp ha), List.idxOf_append_of_mem (List.mem_eraseDups.mp hb)]
    rw [eraseDups_concat]
    split
    · exact hold
    · rename_i hnew
      refine List.pairwise_append.mpr ⟨hold, List.pairwise_singleton .., fun a ha b hb => ?_⟩
      have ha := List.mem_eraseDups.mp ha
      rw [List.mem_singleton.mp hb, List.idxOf_append_of_mem ha, List.idxOf_append_of_notMem hnew]
      exact Nat.lt_of_lt_of_le (List.idxOf_lt_length_of_mem ha) (Nat.le_add_right ..)

/-- Nodes are numbered in the order in which their ids come first. -/
theorem idxOf_label_lt (hvw : v < w) (hw : w < (ofGraphData d).nodeCount) :
    d.ids.idxOf ((ofGraphData d).inner.label v) < d.ids.idxOf ((ofGraphData d).inner.label w) := by
  have hsorted := idxOf_eraseDups d.ids
  rw [← nodes_ofGraphData, nodes_eq, List.pairwise_map, List.pairwise_iff_getElem] at hsorted
  have hlt := hsorted v w (by simpa using Nat.lt_trans hvw hw) (by simpa using hw) hvw
  rwa [List.getElem_range, List.getElem_range] at hlt

/-- Ids are in one component if there is a path between them. -/
theorem together_iff_touches {a b : String} :
    (∃ c ∈ (ofGraphData d).connectedComponents, a ∈ c ∧ b ∈ c) ↔ a ∈ d.ids ∧ ReflTransGen d.Touches a b := by
  have h := inStep_ofGraphData d
  have hmem {c : List String} {id : String} (hc : c ∈ (ofGraphData d).connectedComponents) (hid : id ∈ c) : id ∈ d.ids :=
    mem_nodes_ofGraphData.mp (h.mem_connectedComponents.mp (List.mem_flatten.mpr ⟨c, hc, hid⟩))
  constructor
  · rintro ⟨c, hc, ha, hb⟩
    refine ⟨hmem hc ha, ?_⟩
    obtain ⟨v, hv, rfl⟩ := exists_label (hmem hc ha)
    obtain ⟨w, hw, rfl⟩ := exists_label (hmem hc hb)
    exact (joined_label_iff hv hw).mp ((h.together_iff hv hw).mp ⟨c, hc, ha, hb⟩)
  · rintro ⟨ha, hpath⟩
    obtain ⟨v, hv, rfl⟩ := exists_label ha
    obtain ⟨w, hw, rfl, hjoined⟩ := joined_of_touches hpath hv rfl
    exact (h.together_iff hv hw).mpr hjoined

/-- Edges between the same ids make the same components, but for the order within them. -/
theorem forall₂_perm_components {d' : GraphData} (hids : d'.ids = d.ids) (htouches : d'.Touches = d.Touches) :
    List.Forall₂ List.Perm (ofGraphData d').connectedComponents (ofGraphData d).connectedComponents := by
  have h := inStep_ofGraphData d
  have h' := inStep_ofGraphData d'
  have hnodes : (ofGraphData d').nodes = (ofGraphData d).nodes := by rw [nodes_ofGraphData, hids, nodes_ofGraphData]
  have hcount : (ofGraphData d').nodeCount = (ofGraphData d).nodeCount := congrArg List.length hnodes
  have hlabel (v : Nat) : (ofGraphData d').inner.label v = (ofGraphData d).inner.label v :=
    congrArg (fun labels : List String => labels.getD v "") hnodes
  have hjoined {v w : Nat} (hv : v < (ofGraphData d).nodeCount) (hw : w < (ofGraphData d).nodeCount) :
      (ofGraphData d').inner.Joined v w ↔ (ofGraphData d).inner.Joined v w := by
    rw [joined_label_iff (hcount ▸ hv) (hcount ▸ hw), joined_label_iff hv hw, hlabel, hlabel, htouches]
  have hstarts : (ofGraphData d').starts = (ofGraphData d).starts := by
    rw [starts, starts, hcount]
    refine List.filter_congr fun v hv => decide_eq_decide.mpr (forall₂_congr fun u hu => not_congr ?_)
    exact hjoined (Nat.lt_trans hu (List.mem_range.mp hv)) (List.mem_range.mp hv)
  rw [h.connectedComponents_eq, h'.connectedComponents_eq, hstarts, List.forall₂_map_left_iff, List.forall₂_map_right_iff,
    List.forall₂_same]
  intro v hv
  have hlt := (mem_starts.mp hv).1
  refine (List.perm_ext_iff_of_nodup (h'.nodup_idsFrom (hcount ▸ hlt)) (h.nodup_idsFrom hlt)).mpr fun id => ?_
  rw [h'.mem_idsFrom (hcount ▸ hlt), h.mem_idsFrom hlt, hcount]
  exact exists_congr fun w => and_congr_right fun hw => by rw [hjoined hlt hw, hlabel]

/-- The connected components of some data hold every id of a node once. Two ids are in one
component exactly if they are joined by a path of edges, each taken in either direction;
edges with an unknown end do not count. A component begins with the id that comes first
in the data, and the components are in the order of these ids. As sets of ids they stay
what they are when the edges are reordered and some of them turned around. -/
theorem components_partition (d : GraphData) :
    let components := (ofGraphData d).connectedComponents
    components.flatten.Nodup ∧ (∀ id, id ∈ components.flatten ↔ id ∈ d.ids) ∧
    (∀ a b, (∃ c ∈ components, a ∈ c ∧ b ∈ c) ↔ a ∈ d.ids ∧ ReflTransGen d.Touches a b) ∧
    (∀ c ∈ components, ∃ first rest, c = first :: rest ∧ ∀ id ∈ rest, d.ids.idxOf first < d.ids.idxOf id) ∧
    (components.Pairwise fun c c' => ∀ first ∈ c.head?, ∀ first' ∈ c'.head?,
      d.ids.idxOf first < d.ids.idxOf first') ∧
    ∀ edges : List GraphEdge, (edges.map GraphData.ends).Perm (d.edges.map GraphData.ends) →
      List.Forall₂ List.Perm (ofGraphData { d with edges }).connectedComponents components := by
  intro components
  have h : (ofGraphData d).InStep := inStep_ofGraphData d
  have heq : components = (ofGraphData d).starts.map (ofGraphData d).idsFrom := h.connectedComponents_eq
  refine ⟨h.nodup_connectedComponents, fun id => h.mem_connectedComponents.trans mem_nodes_ofGraphData,
    fun a b => together_iff_touches, ?_, ?_, fun edges hends => forall₂_perm_components rfl ?_⟩
  · rw [heq]
    refine List.forall_mem_map.mpr fun v hv => ?_
    obtain ⟨rest, hrest, hlater⟩ := h.idsFrom_eq_cons hv
    refine ⟨_, rest, hrest, fun id hid => ?_⟩
    obtain ⟨w, hvw, hw, rfl⟩ := hlater id hid
    exact idxOf_label_lt hvw hw
  · rw [heq, List.pairwise_map]
    refine (Multigraph.earliest_sorted _).imp_of_mem fun {v w} hv hw hvw first hfirst first' hfirst' => ?_
    obtain ⟨rest, hrest, -⟩ := h.idsFrom_eq_cons hv
    obtain ⟨rest', hrest', -⟩ := h.idsFrom_eq_cons hw
    rw [hrest] at hfirst
    rw [hrest'] at hfirst'
    rw [← Option.some.inj hfirst, ← Option.some.inj hfirst']
    exact idxOf_label_lt hvw (mem_starts.mp hw).1
  · funext a b
    rw [eq_iff_iff, GraphData.touches_iff, GraphData.touches_iff, hends.mem_iff]
    rfl

end SymbolGraph

end CodeAtlas
