import CodeAtlas.Graph.View
import CodeAtlas.Proofs.Graph.Parts
import CodeAtlas.Proofs.KeyMap
import Mathlib.Algebra.BigOperators.Group.List.Basic

/-! What the views of a graph tell of how it was made.

Nodes and edges are only ever added. Each addition keeps the index and the multigraph in
step (`InStep`): the index tells the node of every id and of nothing else, and every edge
is between nodes there are. So the ids are those that were added, and the edges those
whose ends were known (`Shows`), and everything asked of a view is told by these two
lists, in the words of ids. -/
namespace CodeAtlas

/-- A node or an edge to be added to a graph. -/
inductive GraphAddition where
  | node (id : String)
  | edge (source target : String) (kind : RelationshipType)

namespace GraphAddition

def apply : GraphAddition → SymbolGraph → SymbolGraph
  | node id, g => (g.addNode id).2
  | edge source target kind, g => (g.addEdge source target kind).2

def id? : GraphAddition → Option String
  | node id => some id
  | edge .. => none

/-- The ids of the nodes, in order, repeated where a node is added again. -/
def ids (additions : List GraphAddition) : List String := additions.filterMap id?

/-- The ends and types of the edges both of whose ends are known when they are added. -/
def linksFrom (known : List String) : List GraphAddition → List (String × String × RelationshipType)
  | [] => []
  | node id :: rest => linksFrom (id :: known) rest
  | edge source target kind :: rest =>
    if source ∈ known ∧ target ∈ known then (source, target, kind) :: linksFrom known rest
    else linksFrom known rest

def links (additions : List GraphAddition) : List (String × String × RelationshipType) := linksFrom [] additions

theorem ids_concat (additions : List GraphAddition) (a : GraphAddition) :
    ids (additions ++ [a]) = ids additions ++ a.id?.toList := by
  rw [ids, List.filterMap_append, ids]
  cases a <;> rfl

theorem linksFrom_append (known : List String) (additions more : List GraphAddition) :
    linksFrom known (additions ++ more) =
      linksFrom known additions ++ linksFrom ((ids additions).reverse ++ known) more := by
  induction additions generalizing known with
  | nil => rfl
  | cons a rest ih =>
    cases a with
    | node id => simpa [linksFrom, ids, id?] using ih (id :: known)
    | edge source target kind =>
      rw [List.cons_append, linksFrom, linksFrom, ih]
      split <;> rfl

theorem links_concat (additions : List GraphAddition) (a : GraphAddition) :
    links (additions ++ [a]) = links additions ++ linksFrom (ids additions).reverse [a] := by
  rw [links, linksFrom_append, List.append_nil, links]

end GraphAddition

namespace SymbolGraph
open GraphAddition

/-- The graph after some additions, from an empty one. -/
def after (additions : List GraphAddition) : SymbolGraph := additions.foldl (fun g a => a.apply g) {}

theorem after_concat (additions : List GraphAddition) (a : GraphAddition) :
    after (additions ++ [a]) = a.apply (after additions) := by
  rw [after, List.foldl_append]
  rfl

/-- The index and the multigraph are in step. -/
structure InStep (g : SymbolGraph) : Prop where
  indexed : ∀ id v, g.index.find? id = some v ↔ g.nodes[v]? = some id
  ends : ∀ e ∈ g.inner.edges, e.source < g.nodeCount ∧ e.target < g.nodeCount

/-- The ends of an edge, by their ids, and its type. -/
def link (g : SymbolGraph) (e : NumberedEdge) : String × String × RelationshipType :=
  (g.inner.label e.source, g.inner.label e.target, e.kind)

variable {g : SymbolGraph} {id : String} {v w : Nat}

/-! ### Ids and numbers -/

theorem label_eq (h : g.nodes[v]? = some id) : g.inner.label v = id := by
  rw [Multigraph.label, List.getD_eq_getElem?_getD]
  exact congrArg (Option.getD · "") h

theorem getElem?_nodes (hv : v < g.nodeCount) : g.nodes[v]? = some (g.inner.label v) := by
  obtain ⟨id, hid⟩ : ∃ id, g.nodes[v]? = some id := ⟨g.nodes[v], List.getElem?_eq_getElem hv⟩
  rw [hid, label_eq hid]

theorem lt_nodeCount (h : g.nodes[v]? = some id) : v < g.nodeCount := (List.getElem?_eq_some_iff.mp h).1

/-- The ids in the order of their numbers. -/
theorem nodes_eq (g : SymbolGraph) : g.nodes = (List.range g.nodeCount).map g.inner.label := by
  refine List.ext_getElem? fun v => ?_
  by_cases hv : v < g.nodeCount
  · rw [getElem?_nodes hv]
    simp [hv]
  · have hnone : g.nodes[v]? = none := List.getElem?_eq_none (Nat.le_of_not_lt hv)
    rw [hnone]
    simpa using Nat.le_of_not_lt hv

namespace InStep

theorem find?_label (h : g.InStep) (hv : v < g.nodeCount) : g.index.find? (g.inner.label v) = some v :=
  (h.indexed _ _).mpr (getElem?_nodes hv)

theorem label_inj (h : g.InStep) (hv : v < g.nodeCount) (hw : w < g.nodeCount)
    (heq : g.inner.label v = g.inner.label w) : v = w := by
  have hfind := h.find?_label hv
  rw [heq, h.find?_label hw] at hfind
  exact (Option.some.inj hfind).symm

theorem mem_nodes_iff (h : g.InStep) : id ∈ g.nodes ↔ (g.index.find? id).isSome = true := by
  rw [List.mem_iff_getElem?, Option.isSome_iff_exists]
  exact exists_congr fun v => (h.indexed id v).symm

theorem find?_eq_none_iff (h : g.InStep) : g.index.find? id = none ↔ id ∉ g.nodes := by
  rw [h.mem_nodes_iff, Option.not_isSome_iff_eq_none]

end InStep

/-! ### Additions -/

theorem inStep_empty : InStep {} := ⟨fun id v => by simp [KeyMap.find?, nodes], nofun⟩

theorem addNode_of_mem (h : g.InStep) (hid : id ∈ g.nodes) : (g.addNode id).2 = g := by
  obtain ⟨v, hv⟩ := Option.isSome_iff_exists.mp (h.mem_nodes_iff.mp hid)
  simp [addNode, hv]

theorem addNode_of_not_mem (h : g.InStep) (hid : id ∉ g.nodes) :
    (g.addNode id).2 = { inner := (g.inner.addNode id).2, index := g.index.insert id g.nodeCount } := by
  simp only [addNode, h.find?_eq_none_iff.mpr hid]
  rfl

theorem addEdge_eq (h : g.InStep) (source target : String) (kind : RelationshipType) :
    (source ∈ g.nodes ∧ target ∈ g.nodes ∧ ∃ s t, g.nodes[s]? = some source ∧ g.nodes[t]? = some target ∧
      g.addEdge source target kind = (true, { g with inner := g.inner.addEdge s t kind })) ∨
    (¬(source ∈ g.nodes ∧ target ∈ g.nodes) ∧ g.addEdge source target kind = (false, g)) := by
  rw [h.mem_nodes_iff, h.mem_nodes_iff, addEdge]
  cases hs : g.index.find? source with
  | none => exact .inr ⟨by simp, rfl⟩
  | some s =>
    cases ht : g.index.find? target with
    | none => exact .inr ⟨by simp, rfl⟩
    | some t => exact .inl ⟨rfl, rfl, s, t, (h.indexed _ _).mp hs, (h.indexed _ _).mp ht, rfl⟩

theorem getElem?_concat (ids : List String) (id k : String) (v : Nat) :
    (ids ++ [id])[v]? = some k ↔ ids[v]? = some k ∨ (v = ids.length ∧ k = id) := by
  obtain hlt | rfl | hgt := Nat.lt_trichotomy v ids.length
  · simp [List.getElem?_append_left hlt, Nat.ne_of_lt hlt]
  · simp [eq_comm]
  · simp [List.getElem?_eq_none, Nat.le_of_lt hgt, Nat.succ_le_of_lt hgt, Nat.ne_of_gt hgt]

/-- A label stays what it is when another node is added. -/
theorem label_addNode (hv : v < g.nodeCount) (id : String) : (g.inner.addNode id).2.label v = g.inner.label v :=
  List.getD_append g.inner.labels [id] "" v hv

theorem InStep.addNode (h : g.InStep) (id : String) : (g.addNode id).2.InStep := by
  by_cases hid : id ∈ g.nodes
  · rw [addNode_of_mem h hid]
    exact h
  rw [addNode_of_not_mem h hid]
  refine ⟨fun k v => ?_, fun e he => ?_⟩
  · show (g.index.insert id g.nodeCount).find? k = some v ↔ (g.nodes ++ [id])[v]? = some k
    rw [KeyMap.find?_insert, getElem?_concat, ← h.indexed]
    have hnone : g.index.find? id = none := h.find?_eq_none_iff.mpr hid
    by_cases hk : k = id
    · simp [hk, hnone, nodes, nodeCount, Multigraph.nodeCount, eq_comm]
    · simp [hk]
  · have hends := h.ends e he
    have hcount : g.nodeCount < (g.nodes ++ [id]).length := by simp [nodes, nodeCount, Multigraph.nodeCount]
    exact ⟨Nat.lt_trans hends.1 hcount, Nat.lt_trans hends.2 hcount⟩

theorem InStep.addEdge (h : g.InStep) (source target : String) (kind : RelationshipType) :
    (g.addEdge source target kind).2.InStep := by
  obtain ⟨-, -, s, t, hs, ht, heq⟩ | ⟨-, heq⟩ := addEdge_eq h source target kind
  · rw [heq]
    refine ⟨h.indexed, fun e he => ?_⟩
    rcases List.mem_append.mp he with he | he
    · exact h.ends e he
    · rw [List.mem_singleton.mp he]
      exact ⟨lt_nodeCount hs, lt_nodeCount ht⟩
  · rw [heq]
    exact h

/-- The graph shows what was added. -/
structure Shows (g : SymbolGraph) (additions : List GraphAddition) : Prop where
  inStep : g.InStep
  nodes : g.nodes = (ids additions).eraseDups
  edges : g.inner.edges.map g.link = links additions

theorem Shows.mem_nodes {additions : List GraphAddition} (h : g.Shows additions) : id ∈ g.nodes ↔ id ∈ ids additions := by
  rw [h.nodes, List.mem_eraseDups]

theorem eraseDups_concat (xs : List String) (x : String) :
    (xs ++ [x]).eraseDups = if x ∈ xs then xs.eraseDups else xs.eraseDups ++ [x] := by
  rw [List.eraseDups_append]
  split <;> simp_all [List.removeAll, List.eraseDups_cons]

theorem Shows.addNode {additions : List GraphAddition} (h : g.Shows additions) (id : String) :
    (g.addNode id).2.Shows (additions ++ [.node id]) := by
  refine ⟨h.inStep.addNode id, ?_, ?_⟩
  · have hids : ids (additions ++ [.node id]) = ids additions ++ [id] := ids_concat additions (.node id)
    rw [hids, eraseDups_concat, ← h.nodes]
    split
    · rename_i hid
      rw [addNode_of_mem h.inStep (h.mem_nodes.mpr hid)]
    · rename_i hid
      rw [addNode_of_not_mem h.inStep (mt h.mem_nodes.mp hid)]
      rfl
  · have hlinks : links (additions ++ [.node id]) = links additions := by
      rw [links_concat]
      exact List.append_nil _
    rw [hlinks, ← h.edges]
    by_cases hid : id ∈ g.nodes
    · rw [addNode_of_mem h.inStep hid]
    · rw [addNode_of_not_mem h.inStep hid]
      refine List.map_congr_left fun e he => ?_
      obtain ⟨hs, ht⟩ := h.inStep.ends e he
      exact Prod.ext (label_addNode hs id) (Prod.ext (label_addNode ht id) rfl)

theorem Shows.addEdge {additions : List GraphAddition} (h : g.Shows additions) (source target : String)
    (kind : RelationshipType) : (g.addEdge source target kind).2.Shows (additions ++ [.edge source target kind]) := by
  refine ⟨h.inStep.addEdge source target kind, ?_, ?_⟩
  · have hids : ids (additions ++ [.edge source target kind]) = ids additions ++ [] :=
      ids_concat additions (.edge source target kind)
    rw [hids, List.append_nil, ← h.nodes]
    obtain ⟨-, -, s, t, -, -, heq⟩ | ⟨-, heq⟩ := addEdge_eq h.inStep source target kind <;> rw [heq]
    rfl
  · rw [links_concat, ← h.edges]
    simp only [linksFrom, List.mem_reverse, ← h.mem_nodes]
    obtain ⟨hsource, htarget, s, t, hs, ht, heq⟩ | ⟨hunknown, heq⟩ := addEdge_eq h.inStep source target kind
    · rw [heq, if_pos ⟨hsource, htarget⟩]
      show (g.inner.edges ++ [_]).map g.link = _
      rw [List.map_append, List.map_singleton, link, label_eq hs, label_eq ht]
    · rw [heq, if_neg hunknown, List.append_nil]

theorem Shows.apply {additions : List GraphAddition} (h : g.Shows additions) (a : GraphAddition) :
    (a.apply g).Shows (additions ++ [a]) := by
  cases a with
  | node id => exact h.addNode id
  | edge source target kind => exact h.addEdge source target kind

theorem shows_after (additions : List GraphAddition) : (after additions).Shows additions := by
  induction additions using List.reverseRecOn with
  | nil => exact ⟨inStep_empty, rfl, rfl⟩
  | append_singleton additions a ih =>
    rw [after_concat]
    exact ih.apply a

/-! ### Neighbours -/

theorem lt_of_mem_across {near far : NumberedEdge → Nat} (hfar : ∀ e ∈ g.inner.edges, far e < g.nodeCount)
    (hw : w ∈ g.inner.across near far v) : w < g.nodeCount := by
  rw [Multigraph.across, List.mem_reverse] at hw
  obtain ⟨e, he, rfl⟩ := List.mem_map.mp hw
  exact hfar e (List.mem_filter.mp he).1

namespace InStep

/-- The neighbours on one side, told by the ids of the ends of the edges. -/
theorem directedNeighbors_across (h : g.InStep) {near far : NumberedEdge → Nat}
    (hnear : ∀ e ∈ g.inner.edges, near e < g.nodeCount) (id : String) :
    g.directedNeighbors (g.inner.across near far) id =
      (g.inner.edges.filter fun e => g.inner.label (near e) == id).map fun e => g.inner.label (far e) := by
  unfold directedNeighbors
  cases hf : g.index.find? id with
  | none =>
    have hnone : (g.inner.edges.filter fun e => g.inner.label (near e) == id) = [] := by
      refine List.filter_eq_nil_iff.mpr fun e he heq => ?_
      have := h.find?_label (hnear e he)
      rw [beq_iff_eq.mp heq, hf] at this
      cases this
    rw [hnone]
    rfl
  | some v =>
    have hlabel : g.inner.label v = id := label_eq ((h.indexed _ _).mp hf)
    have hv : v < g.nodeCount := lt_nodeCount ((h.indexed _ _).mp hf)
    dsimp only
    rw [Multigraph.across, List.map_reverse, List.reverse_reverse, List.map_map]
    refine congrArg (List.map _) (List.filter_congr fun e he => ?_)
    rw [Bool.eq_iff_iff, beq_iff_eq, beq_iff_eq, ← hlabel]
    exact ⟨congrArg g.inner.label, h.label_inj (hnear e he) hv⟩

theorem successors_eq (h : g.InStep) (id : String) :
    g.successors id = ((g.inner.edges.map g.link).filter fun l => l.1 == id).map fun l => l.2.1 := by
  rw [List.filter_map, List.map_map]
  exact h.directedNeighbors_across (fun e he => (h.ends e he).1) id

theorem predecessors_eq (h : g.InStep) (id : String) :
    g.predecessors id = ((g.inner.edges.map g.link).filter fun l => l.2.1 == id).map fun l => l.1 := by
  rw [List.filter_map, List.map_map]
  exact h.directedNeighbors_across (fun e he => (h.ends e he).2) id

theorem lt_of_mem_around (h : g.InStep) (hw : w ∈ g.inner.around v) : w < g.nodeCount := by
  rcases List.mem_append.mp hw with hw | hw
  · exact lt_of_mem_across (fun e he => (h.ends e he).2) hw
  · exact lt_of_mem_across (fun e he => (h.ends e he).1) (List.mem_filter.mp hw).1

theorem nodup_neighbors (h : g.InStep) (id : String) : (g.neighbors id).Nodup := by
  unfold neighbors
  cases hf : g.index.find? id with
  | none => exact List.nodup_nil
  | some v =>
    have hnodup := nodup_firstsBy (fun w : Nat => w) ((g.inner.around v).filter (· != v))
    rw [List.map_id'] at hnodup
    refine hnodup.map_on fun w hw u hu => ?_
    exact h.label_inj (h.lt_of_mem_around (List.mem_filter.mp (mem_firstsBy hw)).1)
      (h.lt_of_mem_around (List.mem_filter.mp (mem_firstsBy hu)).1)

/-- Neighbours are what the edges lead to and what they come from, but for the node itself. -/
theorem mem_neighbors_iff (h : g.InStep) {id other : String} :
    other ∈ g.neighbors id ↔ other ≠ id ∧ (other ∈ g.successors id ∨ other ∈ g.predecessors id) := by
  unfold neighbors successors predecessors directedNeighbors
  cases hf : g.index.find? id with
  | none => simp
  | some v =>
    have hid : g.inner.label v = id := label_eq ((h.indexed _ _).mp hf)
    have hv : v < g.nodeCount := lt_nodeCount ((h.indexed _ _).mp hf)
    have hfirsts : ∀ u, u ∈ firstsBy (fun w : Nat => w) ((g.inner.around v).filter (· != v)) ↔
        u ≠ v ∧ (u ∈ g.inner.targets v ∨ u ∈ g.inner.sources v) := by
      intro u
      have hmem : u ∈ firstsBy (fun w : Nat => w) ((g.inner.around v).filter (· != v)) ↔
          u ∈ (g.inner.around v).filter (· != v) := by
        refine ⟨mem_firstsBy, fun hu => ?_⟩
        obtain ⟨y, hy, rfl⟩ := exists_firstsBy (fun w : Nat => w) hu
        exact hy
      rw [hmem, List.mem_filter, Multigraph.around, List.mem_append, List.mem_filter, bne_iff_ne]
      tauto
    have hne : ∀ u, u ∈ g.inner.targets v ∨ u ∈ g.inner.sources v → (u ≠ v ↔ g.inner.label u ≠ id) := by
      intro u hu
      have hlt : u < g.nodeCount := hu.elim (lt_of_mem_across fun e he => (h.ends e he).2)
        (lt_of_mem_across fun e he => (h.ends e he).1)
      rw [← hid]
      exact not_congr ⟨congrArg g.inner.label, h.label_inj hlt hv⟩
    simp only [List.mem_map, List.mem_reverse, hfirsts]
    constructor
    · rintro ⟨u, ⟨huv, hu⟩, rfl⟩
      exact ⟨(hne u hu).mp huv, hu.imp (fun hu => ⟨u, hu, rfl⟩) fun hu => ⟨u, hu, rfl⟩⟩
    · rintro ⟨hother, ⟨u, hu, rfl⟩ | ⟨u, hu, rfl⟩⟩
      · exact ⟨u, ⟨(hne u (.inl hu)).mpr hother, .inl hu⟩, rfl⟩
      · exact ⟨u, ⟨(hne u (.inr hu)).mpr hother, .inr hu⟩, rfl⟩

/-! ### Degrees -/

theorem inDegrees_eq (h : g.InStep) : g.inDegrees = g.nodes.map fun id => (id, (g.predecessors id).length) := by
  rw [inDegrees, nodes_eq, List.map_map]
  refine List.map_congr_left fun v hv => ?_
  have hfind := h.find?_label (List.mem_range.mp hv)
  simp only [Function.comp_apply, predecessors, directedNeighbors, hfind, List.length_reverse, List.length_map]

end InStep

/-- Numbers below a bound, counted one by one. -/
theorem sum_count_range {n : Nat} {xs : List Nat} (h : ∀ x ∈ xs, x < n) :
    ((List.range n).map fun v => xs.count v).sum = xs.length := by
  have hsum : ∑ v ∈ (List.range n).toFinset, (xs : Multiset Nat).count v = Multiset.card (xs : Multiset Nat) :=
    Multiset.sum_count_eq_card fun x hx => by simpa using h x hx
  rw [List.sum_toFinset _ List.nodup_range] at hsum
  simpa using hsum

/-- Every edge leads into one node. -/
theorem InStep.sum_inDegrees (h : g.InStep) : (g.inDegrees.map Prod.snd).sum = g.edgeCount := by
  have hlt : ∀ t ∈ g.inner.edges.map (·.target), t < g.nodeCount := by
    intro t ht
    obtain ⟨e, he, rfl⟩ := List.mem_map.mp ht
    exact (h.ends e he).2
  rw [inDegrees, List.map_map, edgeCount, Multigraph.edgeCount, ← List.length_map (·.target), ← sum_count_range hlt]
  refine congrArg List.sum (List.map_congr_left fun v _ => ?_)
  show (g.inner.sources v).length = _
  rw [Multigraph.sources, Multigraph.across, List.length_reverse, List.length_map, ← List.countP_eq_length_filter,
    List.count, List.countP_map]
  rfl

/-- However nodes and edges were added: the nodes are the distinct ids, in the order in
which they were added first. An edge is added exactly if both its ends are known, and
otherwise nothing changes. The successors of a node are the targets of the edges that
were added from it, and its predecessors the sources of those that were added to it, one
for each edge, in order. The in-degree of a node is the number of its predecessors; its
neighbours are its successors and predecessors other than itself, each once. The
in-degrees sum up to the number of edges. -/
theorem views_agree (additions : List GraphAddition) :
    let g := after additions
    g.nodes = (ids additions).eraseDups ∧ g.nodeCount = g.nodes.length ∧
    (∀ id, g.contains id = true ↔ id ∈ ids additions) ∧
    (∀ id, (g.addNode id).2.nodes[(g.addNode id).1]? = some id) ∧
    (∀ source target kind,
      ((g.addEdge source target kind).1 = true ↔ source ∈ ids additions ∧ target ∈ ids additions) ∧
      ((g.addEdge source target kind).1 = false → (g.addEdge source target kind).2 = g)) ∧
    (∀ id, g.successors id = ((links additions).filter fun l => l.1 = id).map fun l => l.2.1) ∧
    (∀ id, g.predecessors id = ((links additions).filter fun l => l.2.1 = id).map fun l => l.1) ∧
    g.inDegrees = (g.nodes.map fun id => (id, (g.predecessors id).length)) ∧
    (∀ id, (g.neighbors id).Nodup ∧
      ∀ other, other ∈ g.neighbors id ↔ other ≠ id ∧ (other ∈ g.successors id ∨ other ∈ g.predecessors id)) ∧
    g.edgeCount = (links additions).length ∧ (g.inDegrees.map Prod.snd).sum = g.edgeCount := by
  intro g
  have h : g.Shows additions := shows_after additions
  have hadd : ∀ id, (g.addNode id).2.nodes[(g.addNode id).1]? = some id := by
    intro id
    cases hf : g.index.find? id with
    | some v => simpa [addNode, hf] using (h.inStep.indexed id v).mp hf
    | none =>
      simp only [addNode, hf]
      exact (getElem?_concat g.nodes id id g.nodeCount).mpr (.inr ⟨rfl, rfl⟩)
  refine ⟨h.nodes, rfl, fun id => ?_, hadd, fun source target kind => ?_, ?_, ?_, h.inStep.inDegrees_eq, fun id => ?_,
    ?_, h.inStep.sum_inDegrees⟩
  · rw [← h.mem_nodes, h.inStep.mem_nodes_iff]
    rfl
  · rw [← h.mem_nodes, ← h.mem_nodes]
    obtain ⟨hsource, htarget, s, t, -, -, heq⟩ | ⟨hunknown, heq⟩ := addEdge_eq h.inStep source target kind
    · simp [heq, hsource, htarget]
    · simp [heq, hunknown]
  · exact fun id => h.edges ▸ h.inStep.successors_eq id
  · exact fun id => h.edges ▸ h.inStep.predecessors_eq id
  · exact ⟨h.inStep.nodup_neighbors id, fun other => h.inStep.mem_neighbors_iff⟩
  · rw [← h.edges, List.length_map]
    rfl

end SymbolGraph

end CodeAtlas
