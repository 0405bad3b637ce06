import CodeAtlas.Proofs.Layout.Recall
import CodeAtlas.Proofs.Layout.Simulation

/-! What the built-in strategies do to a graph.

Every strategy succeeds and leaves all but the places of the nodes as it is. A strategy that
goes through the list of nodes marks each of them as placed (`positioned_of_ne_clustered`).
A clustered layout takes the graph apart and puts the nodes back by their ids, and an id
leads to its last node: that one is placed with its component (`tiles_positioned`), and any
other node of the id is not touched. So all nodes are placed, except for those in a
clustered layout whose id comes once more (`strategies_place_nodes`). -/
namespace CodeAtlas
namespace Strategy

/-! ### Node by node -/

theorem positioned_placeEach (d : GraphData) (place : Nat → Float × Float) :
    ∀ m ∈ (placeEach d place).nodes, m.positioned = true := by
  intro m hm
  obtain ⟨i, -, rfl⟩ := List.mem_mapIdx.mp hm
  rfl

theorem positioned_scatter (xs ys : Float × Float) (nodes : List GraphNode) (g : Random.Generator) :
    ∀ m ∈ scatter xs ys nodes g, m.positioned = true := by
  induction nodes generalizing g with
  | nil => exact fun m hm => absurd hm List.not_mem_nil
  | cons n rest ih =>
    rw [scatter]
    exact List.forall_mem_cons.mpr ⟨rfl, ih _⟩

theorem positioned_simulate (d : GraphData) (o : LayoutOptions) (budget : Nat) (g : Random.Generator) :
    ∀ m ∈ (Force.simulate d o budget g).nodes, m.positioned = true := by
  intro m hm
  obtain ⟨i, hi, rfl⟩ := List.mem_iff_getElem.mp hm
  have hnodes := Force.simulate_simulated d o budget g
  exact ((List.forall₂_iff_get.mp hnodes).2 i (hnodes.length_eq ▸ hi) hi).positioned

/-- Every strategy but one marks each node as placed. -/
theorem positioned_of_ne_clustered {a : LayoutAlgorithm} (ha : a ≠ .clustered) (drawn : Random.Generator)
    (d : GraphData) (o : LayoutOptions) :
    ∃ placed outcome, ofAlgorithm a drawn d o = .ok (placed, outcome) ∧
      ∀ m ∈ placed.nodes, m.positioned = true := by
  cases a with
  | forceDirected => exact ⟨_, _, rfl, positioned_simulate d o o.iterations (o.generator drawn)⟩
  | hierarchical | circular | grid => exact ⟨_, _, rfl, positioned_placeEach d _⟩
  | clustered => contradiction
  | random => exact ⟨_, _, rfl, positioned_scatter _ _ d.nodes (o.generator drawn)⟩

/-! ### Component by component -/

section
variable {d : GraphData} {i : Nat} {n : GraphNode}

theorem exists_of_ids {d' : GraphData} (h : d'.ids = d.ids) (hn : d.nodes[i]? = some n) :
    ∃ m, d'.nodes[i]? = some m ∧ m.id = n.id := by
  have hid := congrArg (·[i]?) h
  simpa [GraphData.ids, hn] using hid

/-- The last node of an id is marked as placed when it is named, and remains so. -/
theorem positioned_placeAt (point : GraphNode → Point Float) {moved : List GraphNode} (hn : d.nodes[i]? = some n)
    (hlast : n.id ∉ d.ids.drop (i + 1)) (h : n.positioned = true ∨ n.id ∈ moved.map GraphNode.id) :
    ∃ m, (placeAt point moved d).nodes[i]? = some m ∧ m.positioned = true := by
  induction moved generalizing d n with
  | nil => exact ⟨n, hn, h.resolve_right (List.not_mem_nil)⟩
  | cons a rest ih =>
    have hplaced := getElem?_placeLast a.id (point a).x (point a).y d.nodes i
    rw [hn, Option.map_some, ← placeById_nodes] at hplaced
    have hids := ids_placeById d a.id (point a).x (point a).y
    split at hplaced
    · exact ih hplaced (hids ▸ hlast) (.inl rfl)
    · rename_i hother
      refine ih hplaced (hids ▸ hlast) (h.imp_right fun hnamed => ?_)
      refine (List.mem_cons.mp hnamed).resolve_left fun hsame => hother ⟨hsame, ?_⟩
      rw [← hsame]
      exact hlast

variable (o : LayoutOptions) (columns : Nat) (width height : Float)

theorem positioned_tile {t : Tiling} {component : List String} (hn : t.data.nodes[i]? = some n)
    (hlast : n.id ∉ t.data.ids.drop (i + 1)) (h : n.positioned = true ∨ n.id ∈ component) :
    ∃ m, (tile o columns width height t component).data.nodes[i]? = some m ∧ m.positioned = true := by
  let corner : Point Float := ⟨(t.cell % columns).toFloat * width, (t.cell / columns).toFloat * height⟩
  let run := Force.simulate (t.data.induced component.contains) (o.withCanvas width height) o.iterations t.generator
  have hnamed (hid : n.id ∈ component) : n.id ∈ run.nodes.map GraphNode.id := by
    rw [Force.simulate_ids]
    exact List.mem_map_of_mem (List.mem_filter.mpr ⟨List.mem_of_getElem? hn, List.contains_iff_mem.mpr hid⟩)
  exact positioned_placeAt (fun m => ⟨corner.x + m.x, corner.y + m.y⟩) hn hlast (h.imp_right hnamed)

/-- Each component that is put into its cell places the last nodes of its ids. -/
theorem tiles_positioned {components : List (List String)} {t : Tiling} (hn : t.data.nodes[i]? = some n)
    (hlast : n.id ∉ t.data.ids.drop (i + 1)) (h : n.positioned = true ∨ n.id ∈ components.flatten) :
    ∃ m, (components.foldl (tile o columns width height) t).data.nodes[i]? = some m ∧ m.positioned = true := by
  induction components generalizing t n with
  | nil => exact ⟨n, hn, h.resolve_right List.not_mem_nil⟩
  | cons component rest ih =>
    have hids : (tile o columns width height t component).data.ids = t.data.ids :=
      (moved_tile o columns width height t component).nodes fun _ _ _ _ _ _ => rfl
    obtain ⟨m, hm, hid⟩ := exists_of_ids hids hn
    refine ih hm (by rwa [hids, hid]) ?_
    rw [hid]
    rw [List.flatten_cons, List.mem_append, ← or_assoc] at h
    refine h.imp_left fun hdone => ?_
    obtain ⟨m', hm', hpositioned⟩ := positioned_tile o columns width height hn hlast hdone
    obtain rfl := Option.some.inj (hm.symm.trans hm')
    exact hpositioned

end

theorem exists_clustered (drawn : Random.Generator) (d : GraphData) (o : LayoutOptions) :
    ∃ placed outcome, clustered drawn d o = .ok (placed, outcome) := by
  unfold clustered
  dsimp only
  split <;> exact ⟨_, _, rfl⟩

/-- A clustered layout places the last node of each id and leaves all others as they are. -/
theorem clustered_places_last {drawn : Random.Generator} {d placed : GraphData} {o : LayoutOptions}
    {outcome : LayoutOutcome} (h : clustered drawn d o = .ok (placed, outcome)) {i : Nat} {n : GraphNode} (hn : d.nodes[i]? = some n) :
    ∃ m, placed.nodes[i]? = some m ∧ if n.id ∈ d.ids.drop (i + 1) then m = n else m.positioned = true := by
  obtain ⟨-, hdrawn⟩ := clustered_drawn h
  obtain ⟨m, hm, -, hplace⟩ := hdrawn i n hn
  by_cases hlater : n.id ∈ d.ids.drop (i + 1)
  · rw [if_pos hlater] at hplace
    exact ⟨m, hm, by rwa [if_pos hlater]⟩
  · rw [if_neg hlater] at hplace
    simp only [if_neg hlater]
    obtain ⟨k, component, hcomponent, hid, -⟩ := hplace
    have hknown := List.mem_flatten.mpr ⟨component, List.mem_of_getElem? hcomponent, hid⟩
    unfold clustered at h
    dsimp only at h
    generalize (SymbolGraph.ofGraphData d).connectedComponents = components at h hknown
    split at h
    · rename_i hnone
      rw [List.isEmpty_iff.mp hnone] at hknown
      exact absurd hknown List.not_mem_nil
    · obtain ⟨rfl, -⟩ := Prod.ext_iff.mp (Except.ok.inj h)
      exact tiles_positioned o _ _ _ (t := ⟨d, .placed, o.generator drawn, 0⟩) hn hlater (.inr hknown)

/-! ### All strategies -/

/-- Whatever is drawn, every strategy succeeds and keeps the edges, and all of the nodes but where they are,
how they move and whether they are placed. It marks each node as placed, except that a
clustered layout leaves a node as it is if there is another one of its id after it. -/
theorem strategies_place_nodes (a : LayoutAlgorithm) (drawn : Random.Generator) (d : GraphData) (o : LayoutOptions) :
    ∃ placed outcome, ofAlgorithm a drawn d o = .ok (placed, outcome) ∧
      placed.edges = d.edges ∧ placed.nodes.map GraphNode.unplaced = d.nodes.map GraphNode.unplaced ∧
      ∀ i n, d.nodes[i]? = some n → ∃ m, placed.nodes[i]? = some m ∧
        if a = .clustered ∧ n.id ∈ d.ids.drop (i + 1) then m = n else m.positioned = true := by
  suffices h : ∃ placed outcome, ofAlgorithm a drawn d o = .ok (placed, outcome) ∧
      ∀ i n, d.nodes[i]? = some n → ∃ m, placed.nodes[i]? = some m ∧
        if a = .clustered ∧ n.id ∈ d.ids.drop (i + 1) then m = n else m.positioned = true by
    obtain ⟨placed, outcome, hplaced, hnodes⟩ := h
    have hmoved := movesOnly_ofAlgorithm a drawn d o placed outcome hplaced
    exact ⟨placed, outcome, hplaced, hmoved.edges, hmoved.nodes GraphNode.isLasting_unplaced, hnodes⟩
  by_cases ha : a = .clustered
  · obtain ⟨placed, outcome, hplaced⟩ := exists_clustered drawn d o
    simp only [ha, true_and]
    exact ⟨placed, outcome, hplaced, fun i n => clustered_places_last hplaced⟩
  · obtain ⟨placed, outcome, hplaced, hpositioned⟩ := positioned_of_ne_clustered ha drawn d o
    have hids : placed.ids = d.ids :=
      (movesOnly_ofAlgorithm a drawn d o placed outcome hplaced).nodes fun _ _ _ _ _ _ => rfl
    refine ⟨placed, outcome, hplaced, fun i n hn => ?_⟩
    obtain ⟨m, hm, -⟩ := exists_of_ids hids hn
    refine ⟨m, hm, ?_⟩
    rw [if_neg fun h => ha h.1]
    exact hpositioned m (List.mem_of_getElem? hm)

/-- Two nodes of one id, pinned to one place. -/
def twins : GraphData :=
  let pinned : GraphNode := { GraphNode.ofSymbol default with id := "a", fx := some 10.0, fy := some 20.0 }
  { nodes := [pinned, pinned] }

/-- Not every strategy places every node: a clustered layout of twins leaves the first one where it was. -/
theorem twin_is_left_unplaced :
    ¬∀ a drawn d o, LayoutOptions.fault? o = none →
      ∀ placed outcome, ofAlgorithm a drawn d o = .ok (placed, outcome) →
        ∀ m ∈ placed.nodes, m.positioned = true := by
  intro h
  obtain ⟨placed, outcome, hplaced⟩ := exists_clustered (.ofSeed 0) twins {}
  obtain ⟨m, hm, hleft⟩ := clustered_places_last hplaced (i := 0) rfl
  rw [if_pos (by decide +kernel)] at hleft
  have hpositioned := h .clustered (.ofSeed 0) twins {} (by decide +kernel) placed outcome hplaced m (List.mem_of_getElem? hm)
  rw [hleft] at hpositioned
  cases hpositioned

end Strategy

end CodeAtlas
