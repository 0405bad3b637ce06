import CodeAtlas.Proofs.Layout.Neighbors
import CodeAtlas.Proofs.Layout.Strategies

/-! Layouts that are brought up to date around a change.

The nodes of the data are taken where an earlier layout had them, some of them are
simulated among themselves, and these are put back by their ids (`relax`). Ids alone
decide which: those that the earlier layout does not have, known ids that are listed, and
what an edge joins to a listed one (`mem_affectedIds`). So only what a list says of known
ids counts (`incrementalFrom_congr`), and all other nodes stay where they were
(`incremental_leaves_the_rest`). What an edge joins to a new node is not among them, unless
the new node is listed as well (`new_ids_may_be_listed`). -/
namespace CodeAtlas

/-- A node that has been put somewhere, and is otherwise as it was. -/
def GraphNode.PutFrom (n m : GraphNode) : Prop := m = n.setPosition m.x m.y

namespace Strategy

/-- Placing nodes by their ids changes nothing of a node but where it is. -/
theorem placeAt_cases (point : GraphNode → Point Float) (moved : List GraphNode) {d : GraphData} {i : Nat}
    {n : GraphNode} (hn : d.nodes[i]? = some n) :
    ∃ m, (placeAt point moved d).nodes[i]? = some m ∧ (m = n ∨ n.PutFrom m) := by
  induction moved generalizing d n with
  | nil => exact ⟨n, hn, .inl rfl⟩
  | cons a rest ih =>
    have hplaced := getElem?_placeLast a.id (point a).x (point a).y d.nodes i
    rw [hn, Option.map_some, ← placeById_nodes] at hplaced
    split at hplaced
    · obtain ⟨m, hm, hcases⟩ := ih hplaced
      refine ⟨m, hm, .inr ?_⟩
      rcases hcases with rfl | hput
      · rfl
      · exact hput
    · exact ih hplaced

end Strategy

namespace LayoutEngine
open Strategy (placeAt)

/-! ### The parts of an incremental layout -/

/-- The data with its nodes where an earlier layout had them. -/
def recalled (d : GraphData) (previous : List GraphNode) : GraphData :=
  { d with nodes := d.nodes.map (recallPosition previous) }

/-- The simulation of the nodes of some ids, with the random numbers of a generator. -/
def relaxed (g : Random.Generator) (d : GraphData) (previous : LayoutResult) (ids : List String) : Force.Run :=
  Force.simulate ((recalled d previous.nodes).induced ids.contains) previous.options
    (max (previous.options.iterations / 4) 1) g

/-- Recall all nodes, simulate those of some ids, and put them back. -/
def relax (g : Random.Generator) (d : GraphData) (previous : LayoutResult) (ids : List String) :
    Except AtlasError LayoutResult := do
  let run := relaxed g d previous ids
  ensureUsable previous.algorithm previous.options
  ensureFinite "incremental" run.nodes
  return { nodes := (placeAt GraphNode.position run.nodes (recalled d previous.nodes)).nodes, edges := d.edges
           algorithm := previous.algorithm, options := previous.options
           iterations := run.outcome.iterations, converged := run.outcome.converged }

/-- An incremental layout with the random numbers of a generator. -/
def incrementalFrom (g : Random.Generator) (d : GraphData) (previous : LayoutResult) (changed : List String) :
    Except AtlasError LayoutResult :=
  relax g d previous (affectedIds d previous.nodes changed)

theorem incremental?_eq (drawn : Random.Generator) (d : GraphData) (previous : LayoutResult) (changed : List String) :
    incremental? drawn d previous changed =
      incrementalFrom (previous.options.generator drawn) d previous changed := rfl

theorem ids_recalled (d : GraphData) (previous : List GraphNode) : (recalled d previous).ids = d.ids := by
  rw [GraphData.ids, recalled, List.map_map, GraphData.ids]
  refine List.map_congr_left fun n _ => ?_
  rw [Function.comp_apply, recallPosition]
  split <;> rfl

/-- Only which ids are simulated counts, not in which order they are listed. -/
theorem relax_congr {ids ids' : List String} (h : ∀ id, id ∈ ids ↔ id ∈ ids') (g : Random.Generator) (d : GraphData)
    (previous : LayoutResult) : relax g d previous ids = relax g d previous ids' := by
  have hcontains : ids.contains = ids'.contains := by
    funext id
    rw [Bool.eq_iff_iff, List.contains_iff_mem, List.contains_iff_mem, h]
  simp only [relax, relaxed, hcontains]

/-! ### Affected ids -/

variable {d : GraphData} {previous : List GraphNode} {changed : List String} {id : String}

/-- The ids that an earlier layout does not have. -/
def newIds (d : GraphData) (previous : List GraphNode) : List String :=
  d.ids.filter (· ∉ previous.map GraphNode.id)

theorem mem_newIds : id ∈ newIds d previous ↔ id ∈ d.ids ∧ id ∉ previous.map GraphNode.id := by
  simp [newIds]

theorem contains_ofGraphData : (SymbolGraph.ofGraphData d).contains id = true ↔ id ∈ d.ids := by
  rw [← SymbolGraph.mem_nodes_ofGraphData, (SymbolGraph.inStep_ofGraphData d).mem_nodes_iff]
  rfl

/-- An id is affected if it is new, or known and listed, or joined to one that is. -/
theorem mem_affectedIds :
    id ∈ affectedIds d previous changed ↔
      id ∈ newIds d previous ∨ ∃ c ∈ changed, c ∈ d.ids ∧ (id = c ∨ d.Touches c id) := by
  have hnew : id ∈ (d.nodes.map GraphNode.id).filter (fun id => !previous.any (·.id == id)) ↔
      id ∈ newIds d previous := by
    rw [mem_newIds, List.mem_filter]
    simp [GraphData.ids]
  rw [affectedIds, List.mem_append, hnew]
  refine or_congr_right ?_
  simp only [List.mem_flatMap, List.mem_filter, contains_ofGraphData, List.mem_cons,
    SymbolGraph.mem_neighbors_ofGraphData, and_assoc]
  refine exists_congr fun c => and_congr_right fun _ => and_congr_right fun _ => ?_
  by_cases hid : id = c <;> simp [hid]

/-- A list says no more than which known ids are on it. -/
theorem mem_affectedIds_congr {changed' : List String} (h : ∀ id ∈ d.ids, id ∈ changed' ↔ id ∈ changed) :
    id ∈ affectedIds d previous changed' ↔ id ∈ affectedIds d previous changed := by
  rw [mem_affectedIds, mem_affectedIds]
  refine or_congr_right (exists_congr fun c => ?_)
  by_cases hc : c ∈ d.ids
  · rw [h c hc]
  · simp [hc]

theorem incrementalFrom_congr {changed' : List String} (h : ∀ id ∈ d.ids, id ∈ changed' ↔ id ∈ changed)
    (g : Random.Generator) (previous : LayoutResult) :
    incrementalFrom g d previous changed' = incrementalFrom g d previous changed :=
  relax_congr (fun _ => mem_affectedIds_congr h) g d previous

/-! ### What is left alone -/

/-- Where ids are distinct, no later node has the id of a node. -/
theorem last_of_nodup (distinct : d.ids.Nodup) {i : Nat} {n : GraphNode} (hn : d.nodes[i]? = some n) :
    n.id ∉ d.ids.drop (i + 1) := by
  have hid : d.ids[i]? = some n.id := by simp [GraphData.ids, hn]
  obtain ⟨hi, hat⟩ := List.getElem?_eq_some_iff.mp hid
  have hdrop : (d.ids.drop i).Nodup := distinct.sublist (List.drop_sublist i d.ids)
  rw [List.drop_eq_getElem_cons hi, hat] at hdrop
  exact (List.nodup_cons.mp hdrop).1

/-- Where ids are distinct, a node is taken where the one node of its id was. -/
theorem recallPosition_of_mem {n old : GraphNode} (distinct : (previous.map GraphNode.id).Nodup)
    (hold : old ∈ previous) (same : old.id = n.id) : recallPosition previous n = n.setPosition old.x old.y := by
  have hfound : previous.reverse.find? (·.id == n.id) = some old := by
    cases hfind : previous.reverse.find? (·.id == n.id) with
    | none => exact absurd same (by simpa using List.find?_eq_none.mp hfind old (List.mem_reverse.mpr hold))
    | some other =>
      have hother : other ∈ previous := List.mem_reverse.mp (List.mem_of_find?_eq_some hfind)
      have hid : other.id = n.id := eq_of_beq (List.find?_some hfind :)
      rw [List.inj_on_of_nodup_map distinct hother hold (hid.trans same.symm)]
  rw [recallPosition, hfound]

theorem putFrom_recallPosition (previous : List GraphNode) (n : GraphNode) :
    n.PutFrom (recallPosition previous n) ∨ recallPosition previous n = n ∧ n.id ∉ previous.map GraphNode.id := by
  unfold recallPosition
  split
  · exact .inl rfl
  · rename_i hnone
    exact .inr ⟨rfl, by simpa using hnone⟩

variable {g : Random.Generator} {before r : LayoutResult} {ids : List String}

theorem relax_ok (h : relax g d before ids = .ok r) :
    r.edges = d.edges ∧ r.nodes = (placeAt GraphNode.position (relaxed g d before ids).nodes (recalled d before.nodes)).nodes := by
  obtain ⟨-, -, h⟩ := ok_of_bind h
  obtain ⟨-, -, h⟩ := ok_of_bind h
  cases h
  exact ⟨rfl, rfl⟩

theorem mem_ids_relaxed : id ∈ (relaxed g d before ids).nodes.map GraphNode.id ↔ id ∈ ids ∧ id ∈ d.ids := by
  have hsame : ((recalled d before.nodes).induced ids.contains).nodes.map GraphNode.id =
      d.ids.filter ids.contains := by
    rw [← ids_recalled d before.nodes, GraphData.ids, List.filter_map]
    rfl
  rw [relaxed, Force.simulate_ids, hsame, List.mem_filter, List.contains_iff_mem, and_comm]

/-- A node that is not simulated is where it was recalled. -/
theorem relax_left {i : Nat} {n : GraphNode} (h : relax g d before ids = .ok r) (hn : d.nodes[i]? = some n)
    (hfree : n.id ∉ ids) : r.nodes[i]? = some (recallPosition before.nodes n) := by
  have hrecalled : (recalled d before.nodes).nodes[i]? = some (recallPosition before.nodes n) := by
    simp [recalled, hn]
  have hid : (recallPosition before.nodes n).id = n.id := by
    unfold recallPosition
    split <;> rfl
  rw [(relax_ok h).2]
  refine Strategy.placeAt_left _ hrecalled (.inl fun hnamed => hfree ?_)
  rw [hid] at hnamed
  exact (mem_ids_relaxed.mp hnamed).1

/-- Where ids are distinct and the new ones are simulated, every node is put somewhere. -/
theorem relax_putFrom (h : relax g d before ids = .ok r) (distinct : d.ids.Nodup)
    (hnew : ∀ id ∈ newIds d before.nodes, id ∈ ids) : List.Forall₂ GraphNode.PutFrom d.nodes r.nodes := by
  have hnodes (i : Nat) (n : GraphNode) (hn : d.nodes[i]? = some n) :
      ∃ m, r.nodes[i]? = some m ∧ n.PutFrom m := by
    have hrecalled : (recalled d before.nodes).nodes[i]? = some (recallPosition before.nodes n) := by
      simp [recalled, hn]
    obtain ⟨m, hm, hcases⟩ := Strategy.placeAt_cases GraphNode.position (relaxed g d before ids).nodes hrecalled
    rw [← (relax_ok h).2] at hm
    refine ⟨m, hm, ?_⟩
    rcases putFrom_recallPosition before.nodes n with hput | ⟨hsame, hunknown⟩
    · rcases hcases with rfl | hput'
      · exact hput
      · rw [GraphNode.PutFrom, hput] at hput'
        exact hput'
    · rw [hsame] at hrecalled hcases
      rcases hcases with rfl | hput
      · -- a new node that was not moved has been simulated, so it is marked as placed
        have hlast : m.id ∉ (recalled d before.nodes).ids.drop (i + 1) := by
          rw [ids_recalled]
          exact last_of_nodup distinct hn
        have hid : m.id ∈ d.ids := List.mem_map_of_mem (List.mem_of_getElem? hn)
        have hnamed : m.id ∈ (relaxed g d before ids).nodes.map GraphNode.id :=
          mem_ids_relaxed.mpr ⟨hnew _ (mem_newIds.mpr ⟨hid, hunknown⟩), hid⟩
        obtain ⟨k, hk, hpositioned⟩ := Strategy.positioned_placeAt GraphNode.position hrecalled hlast (.inr hnamed)
        rw [← (relax_ok h).2, hm] at hk
        obtain rfl := Option.some.inj hk
        rw [GraphNode.PutFrom, GraphNode.setPosition, ← hpositioned]
      · exact hput
  have hids : r.nodes.map GraphNode.id = d.nodes.map GraphNode.id := by
    rw [(relax_ok h).2]
    exact (Strategy.ids_placeAt _ _ _).trans (ids_recalled d before.nodes)
  have hlength : d.nodes.length = r.nodes.length := by simpa using (congrArg List.length hids).symm
  refine List.forall₂_iff_get.mpr ⟨hlength, fun i hi hi' => ?_⟩
  obtain ⟨m, hm, hput⟩ := hnodes i _ (List.getElem?_eq_getElem hi)
  obtain rfl := Option.some.inj ((List.getElem?_eq_getElem hi').symm.trans hm)
  exact hput

/-! ### Every change -/

/-- An incremental layout depends on what the list says of known ids only, whatever the
random numbers are. If it succeeds, it has the edges of the data, and its nodes in order,
each somewhere and otherwise as it was. A node that the earlier layout has is exactly
where it was, if it is not on the list and no edge joins it to a known id that is. -/
theorem incremental_leaves_the_rest (d : GraphData) (previous : LayoutResult) (changed : List String)
    (distinct : d.ids.Nodup) (distinct' : (previous.nodes.map GraphNode.id).Nodup) :
    (∀ drawn, incremental? drawn d previous changed =
      incrementalFrom (previous.options.generator drawn) d previous changed) ∧
    ∀ g,
      (∀ changed', (∀ id ∈ d.ids, id ∈ changed' ↔ id ∈ changed) →
        incrementalFrom g d previous changed' = incrementalFrom g d previous changed) ∧
      ∀ r, incrementalFrom g d previous changed = .ok r →
        r.edges = d.edges ∧ List.Forall₂ GraphNode.PutFrom d.nodes r.nodes ∧
        ∀ (i : Nat) (n old : GraphNode), d.nodes[i]? = some n → old ∈ previous.nodes → old.id = n.id →
          n.id ∉ changed → (∀ c ∈ changed, ¬d.Touches c n.id) →
          r.nodes[i]? = some (n.setPosition old.x old.y) := by
  refine ⟨fun drawn => incremental?_eq drawn d previous changed,
    fun g => ⟨fun changed' h => incrementalFrom_congr h g previous, ?_⟩⟩
  intro r h
  refine ⟨(relax_ok h).1, relax_putFrom h distinct fun id hid => mem_affectedIds.mpr (.inl hid), ?_⟩
  intro i n old hn hold hsame hunlisted hapart
  rw [← recallPosition_of_mem distinct' hold hsame]
  refine relax_left h hn fun haffected => ?_
  rcases mem_affectedIds.mp haffected with hnew | ⟨c, hc, -, rfl | htouch⟩
  · exact (mem_newIds.mp hnew).2 (hsame ▸ List.mem_map_of_mem hold)
  · exact hunlisted hc
  · exact hapart c hc htouch

/-! A layout of three nodes, and the same data with a new node, which an edge joins to the first. -/

def nodeAt (id : String) (x y : Float) : GraphNode :=
  { GraphNode.ofSymbol default with id, x, y, positioned := true }

def earlier : LayoutResult :=
  { nodes := [nodeAt "a" 600.0 400.0, nodeAt "b" 700.0 400.0, nodeAt "c" 800.0 400.0], edges := []
    algorithm := LayoutAlgorithm.grid.tag, options := { iterations := 4, seed := some 7 }
    iterations := 0, converged := true }

def later : GraphData :=
  { nodes := [nodeAt "a" 0.0 0.0, nodeAt "b" 0.0 0.0, nodeAt "c" 0.0 0.0, nodeAt "d" 650.0 400.0]
    edges := [("a", "b"), ("a", "d")].map fun (source, target) => { (default : GraphEdge) with source, target } }

/-- The third node is neither new nor listed nor joined to one that is, so it is where it was. -/
theorem third_node_is_left :
    ∃ r, incremental? (.ofSeed 0) later earlier ["b", "x"] = .ok r ∧ r.edges = later.edges ∧
      r.nodes[2]? = some (nodeAt "c" 800.0 400.0) := by
  have hfound : (incremental? (.ofSeed 0) later earlier ["b", "x"]).toOption.any (fun _ => true) = true := by
    decide +kernel
  have hdistinct : later.ids.Nodup := by decide
  have hdistinct' : (earlier.nodes.map GraphNode.id).Nodup := by decide
  obtain ⟨r, hr, -⟩ := exists_ok_of_any hfound
  obtain ⟨heq, hall⟩ := incremental_leaves_the_rest later earlier ["b", "x"] hdistinct hdistinct'
  obtain ⟨hedges, -, hleft⟩ := (hall (earlier.options.generator (.ofSeed 0))).2 r ((heq _).symm.trans hr)
  refine ⟨r, hr, hedges, hleft 2 (nodeAt "c" 0.0 0.0) (nodeAt "c" 800.0 400.0) rfl (by simp [earlier]) rfl ?_ ?_⟩
  · simp [nodeAt]
  · simp [GraphData.Touches, later, nodeAt]

/-- When the new ids are listed, what an edge joins to a new id is affected as well, and
nothing more is. So the layout is the same if that is affected anyway, and otherwise
different nodes are simulated. -/
theorem new_ids_may_be_listed (d : GraphData) (previous : LayoutResult) (changed : List String) :
    let listed := changed ++ newIds d previous.nodes
    (∀ id, id ∈ affectedIds d previous.nodes listed ↔
      id ∈ affectedIds d previous.nodes changed ∨ ∃ new ∈ newIds d previous.nodes, d.Touches new id) ∧
    ((∀ new ∈ newIds d previous.nodes, ∀ id, d.Touches new id → id ∈ affectedIds d previous.nodes changed) →
      ∀ drawn, incremental? drawn d previous listed = incremental? drawn d previous changed) := by
  intro listed
  have hlisted (id : String) : id ∈ affectedIds d previous.nodes listed ↔
      id ∈ affectedIds d previous.nodes changed ∨ ∃ new ∈ newIds d previous.nodes, d.Touches new id := by
    rw [mem_affectedIds, mem_affectedIds, or_assoc]
    constructor
    · rintro (hnew | ⟨c, hc, hknown, hid⟩)
      · exact .inl hnew
      · rcases List.mem_append.mp hc with hc | hc
        · exact .inr (.inl ⟨c, hc, hknown, hid⟩)
        · rcases hid with rfl | htouch
          · exact .inl hc
          · exact .inr (.inr ⟨c, hc, htouch⟩)
    · rintro (hnew | ⟨c, hc, hid⟩ | ⟨c, hc, htouch⟩)
      · exact .inl hnew
      · exact .inr ⟨c, List.mem_append_left _ hc, hid⟩
      · exact .inr ⟨c, List.mem_append_right _ hc, htouch.1, .inr htouch⟩
  refine ⟨hlisted, fun hanyway drawn => relax_congr (fun id => ?_) _ d previous⟩
  rw [hlisted]
  exact or_iff_left_of_imp fun ⟨new, hnew, htouch⟩ => hanyway new hnew id htouch

/-- Where what an edge joins to the new node is listed, it does not matter if the new node is. -/
theorem listed_neighbor_is_enough :
    newIds later earlier.nodes = ["d"] ∧ (∀ id, later.Touches "d" id → id ∈ affectedIds later earlier.nodes ["a"]) ∧
      ∀ drawn, incremental? drawn later earlier ["a", "d"] = incremental? drawn later earlier ["a"] := by
  have hnew : newIds later earlier.nodes = ["d"] := by decide
  have hanyway : ∀ id, later.Touches "d" id → id ∈ affectedIds later earlier.nodes ["a"] := by
    rintro id ⟨-, -, hedge⟩
    obtain rfl : "a" = id := by simpa [later] using hedge
    exact mem_affectedIds.mpr (.inr ⟨"a", List.mem_singleton_self "a", by decide, .inl rfl⟩)
  refine ⟨hnew, hanyway, ?_⟩
  have hlisted := (new_ids_may_be_listed later earlier ["a"]).2
  rw [hnew] at hlisted
  refine hlisted fun new hmem id htouch => hanyway id ?_
  rwa [List.mem_singleton.mp hmem] at htouch

/-- A new node does not count as listed: the node that an edge joins to it stays where it was. -/
theorem neighbor_of_new_node_is_left :
    ¬∀ drawn d previous changed, previous.options.seed.isSome = true →
      (incremental? drawn d previous (changed ++ newIds d previous.nodes)).map
          (fun r => (r.nodes, r.iterations, r.converged)) =
        (incremental? drawn d previous changed).map fun r => (r.nodes, r.iterations, r.converged) := by
  intro h
  have hsame := congrArg (fun a => a.toOption.map fun a => (a.1.map fun n : GraphNode => n.x.toBits))
    (h (.ofSeed 0) later earlier [] rfl)
  revert hsame
  decide +kernel

end LayoutEngine

end CodeAtlas
