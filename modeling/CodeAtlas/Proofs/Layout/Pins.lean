import CodeAtlas.Proofs.Graph.Components
import CodeAtlas.Proofs.Layout.Finite
import CodeAtlas.Proofs.Layout.Simulation

/-! Where pinned nodes are laid out.

A simulation starts a pinned node at its pin and leaves it there (`Force.simulate_held`).
What it ends with is then fitted into the canvas by one map for all nodes
(`LayoutResult.Draws`), which moves pins like any other point. A clustered layout
simulates its components apart and counts every pin from the corner of the cell of its
component (`Strategy.Tiled`). -/
namespace CodeAtlas
open LayoutEngine

namespace GraphNode

/-- A node that may have been moved, but not off its pin. -/
structure Held (n m : GraphNode) : Prop where
  id : m.id = n.id
  pin : m.pin? = n.pin?
  held : ∀ p, n.pin? = some p → m.position = p

theorem Simulated.held {n m : GraphNode} (h : n.Simulated m) : n.Held m := by
  have same : m.unplaced.id = n.unplaced.id := by rw [h.same]
  exact ⟨same, h.pin?_eq, fun p hp => (h.pinned p hp).1⟩

theorem map_held {β : Type} {f : GraphNode → β} (same : ∀ n m, n.Held m → f m = f n) {nodes moved : List GraphNode}
    (h : List.Forall₂ Held nodes moved) : moved.map f = nodes.map f := by
  induction h with
  | nil => rfl
  | cons first _ ih => rw [List.map_cons, List.map_cons, same _ _ first, ih]

theorem split_held {before after moved : List GraphNode} (h : List.Forall₂ Held (before ++ after) moved) :
    ∃ xs ys, moved = xs ++ ys ∧ List.Forall₂ Held after ys :=
  ⟨_, _, (List.take_append_drop before.length moved).symm, (List.forall₂_drop_append moved before after h.flip).flip⟩

end GraphNode

/-! ### Simulations -/

namespace Force

/-- A simulation ends with the nodes it was given, those with a pin at their pins. -/
theorem simulate_held (d : GraphData) (o : LayoutOptions) (iterations : Nat) (g : Random.Generator) :
    List.Forall₂ GraphNode.Held d.nodes (simulate d o iterations g).nodes :=
  (simulate_simulated d o iterations g).imp fun _ _ h => h.held

end Force

/-! ### Fitting -/

theorem normalize_map {β : Type} (f : GraphNode → β) (same : ∀ n p, f (n.moveTo p) = f n) (o : LayoutOptions)
    (nodes : List GraphNode) : (o.normalize nodes).map f = nodes.map f := by
  obtain rfl | some := eq_or_ne nodes []
  · rfl
  · obtain ⟨b, hb⟩ := exists_boxOf? some
    simp [normalize_eq o hb, same]

theorem normalize_positions (o : LayoutOptions) (nodes : List GraphNode) :
    (o.normalize nodes).map GraphNode.position = o.frame.placeAll (nodes.map GraphNode.position) := by
  obtain rfl | some := eq_or_ne nodes []
  · rfl
  · obtain ⟨b, hb⟩ := exists_boxOf? some
    rw [normalize_eq o hb, Frame.placeAll, show Box.hull? _ = Option.some b from hb]
    simp [GraphNode.moveTo, GraphNode.setPosition, GraphNode.position]

/-- The result of a layout that has drawn some nodes at some points: the nodes are the same
with the same pins, and one map takes every point to its place on the canvas. -/
structure LayoutResult.Draws (r : LayoutResult) (nodes : List GraphNode) (points : List (Point Float)) : Prop where
  ids : r.nodes.map GraphNode.id = nodes.map GraphNode.id
  pins : r.nodes.map GraphNode.pin? = nodes.map GraphNode.pin?
  places : r.nodes.map GraphNode.position = r.options.frame.placeAll points

theorem LayoutResult.IsFitted.draws {r : LayoutResult} {nodes placed : List GraphNode} (h : r.IsFitted placed)
    (ids : placed.map GraphNode.id = nodes.map GraphNode.id)
    (pins : placed.map GraphNode.pin? = nodes.map GraphNode.pin?) :
    r.Draws nodes (placed.map GraphNode.position) where
  ids := by rw [h.fitted, normalize_map GraphNode.id fun _ _ => rfl, ids]
  pins := by rw [h.fitted, normalize_map GraphNode.pin? fun _ _ => rfl, pins]
  places := by rw [h.fitted, normalize_positions]

/-! ### Placing by ids -/

theorem hasId_iff {id : String} {nodes : List GraphNode} : hasId id nodes = true ↔ id ∈ nodes.map GraphNode.id := by
  simp [hasId]

theorem placeLast_of_unknown {id : String} {nodes : List GraphNode} (h : id ∉ nodes.map GraphNode.id) (x y : Float) :
    placeLast id x y nodes = nodes := by
  induction nodes with
  | nil => rfl
  | cons n rest ih =>
    simp only [List.map_cons, List.mem_cons, not_or] at h
    rw [placeLast, if_neg (by rw [hasId_iff]; exact h.2), if_neg (by simpa using Ne.symm h.1)]

/-- What is at a place after the last node of an id has been placed. -/
theorem getElem?_placeLast (id : String) (x y : Float) (nodes : List GraphNode) (i : Nat) :
    (placeLast id x y nodes)[i]? = nodes[i]?.map fun n =>
      if n.id = id ∧ id ∉ (nodes.map GraphNode.id).drop (i + 1) then n.setPosition x y else n := by
  induction nodes generalizing i with
  | nil => rfl
  | cons n rest ih =>
    by_cases later : id ∈ rest.map GraphNode.id
    · rw [placeLast, if_pos (hasId_iff.mpr later)]
      cases i with
      | zero => simp [later]
      | succ i => simpa using ih i
    · have others := ih
      rw [placeLast_of_unknown later] at others
      rw [placeLast, if_neg (by rwa [hasId_iff])]
      cases i with
      | zero => by_cases same : n.id = id <;> simp [same, later]
      | succ i => by_cases same : n.id = id <;> simpa [same] using others i

namespace Strategy

theorem ids_placeById (d : GraphData) (id : String) (x y : Float) : (placeById d id x y).ids = d.ids := by
  rw [GraphData.ids, GraphData.ids, placeById_nodes]
  exact map_placeLast (fun _ _ _ _ _ _ => rfl) id x y d.nodes

/-- Place nodes by their ids, each at a point. -/
def placeAt (point : GraphNode → Point Float) (moved : List GraphNode) (d : GraphData) : GraphData :=
  moved.foldl (fun d m => placeById d m.id (point m).x (point m).y) d

/-- Place nodes by their ids where they are, counted from a corner. -/
def placeFrom (corner : Point Float) (moved : List GraphNode) (d : GraphData) : GraphData :=
  moved.foldl (fun d m => placeById d m.id (corner.x + m.x) (corner.y + m.y)) d

section
variable {d : GraphData} {i : Nat} {n : GraphNode} (point : GraphNode → Point Float) (corner : Point Float)

theorem ids_placeAt (moved : List GraphNode) (d : GraphData) : (placeAt point moved d).ids = d.ids := by
  induction moved generalizing d with
  | nil => rfl
  | cons m rest ih => exact (ih _).trans (ids_placeById d m.id _ _)

/-- A node that is not named, or is not the last of its id, is left where it is. -/
theorem placeAt_left {moved : List GraphNode} (hn : d.nodes[i]? = some n)
    (free : n.id ∉ moved.map GraphNode.id ∨ n.id ∈ d.ids.drop (i + 1)) :
    (placeAt point moved d).nodes[i]? = some n := by
  induction moved generalizing d with
  | nil => exact hn
  | cons m rest ih =>
    rw [List.map_cons, List.mem_cons, not_or] at free
    refine ih ?_ (free.imp And.right fun later => ?_)
    · rw [placeById_nodes, getElem?_placeLast, hn, Option.map_some, if_neg]
      rintro ⟨same, last⟩
      rw [← same] at last
      exact free.elim (·.1 same) last
    · rwa [ids_placeById]

theorem ids_placeFrom (moved : List GraphNode) (d : GraphData) : (placeFrom corner moved d).ids = d.ids :=
  ids_placeAt (fun m => ⟨corner.x + m.x, corner.y + m.y⟩) moved d

theorem placeFrom_left {moved : List GraphNode} (hn : d.nodes[i]? = some n)
    (free : n.id ∉ moved.map GraphNode.id ∨ n.id ∈ d.ids.drop (i + 1)) :
    (placeFrom corner moved d).nodes[i]? = some n :=
  placeAt_left (fun m => ⟨corner.x + m.x, corner.y + m.y⟩) hn free

/-- The last node of an id is placed by the last of the nodes that name it. -/
theorem placeFrom_placed (before : List GraphNode) {m : GraphNode} {after : List GraphNode}
    (hn : d.nodes[i]? = some n) (last : n.id ∉ d.ids.drop (i + 1)) (same : m.id = n.id)
    (once : n.id ∉ after.map GraphNode.id) :
    ∃ k, (placeFrom corner (before ++ m :: after) d).nodes[i]? = some k ∧ k.pin? = n.pin? ∧
      k.position = ⟨corner.x + m.x, corner.y + m.y⟩ := by
  induction before generalizing d n with
  | nil =>
    have placed : (placeById d m.id (corner.x + m.x) (corner.y + m.y)).nodes[i]? =
        some (n.setPosition (corner.x + m.x) (corner.y + m.y)) := by
      rw [placeById_nodes, getElem?_placeLast, hn, Option.map_some, if_pos ⟨same.symm, same ▸ last⟩]
    have stays := placeFrom_left corner placed (.inl (show _ ∉ after.map GraphNode.id from once))
    exact ⟨_, stays, rfl, rfl⟩
  | cons a before ih =>
    have placed := getElem?_placeLast a.id (corner.x + a.x) (corner.y + a.y) d.nodes i
    rw [hn, Option.map_some, ← placeById_nodes] at placed
    have ids := ids_placeById d a.id (corner.x + a.x) (corner.y + a.y)
    split at placed
    · exact ih (n := n.setPosition _ _) placed (ids ▸ last) same once
    · exact ih placed (ids ▸ last) same once

end

/-! ### Clusters -/

/-- The corner of the `k`th cell of so many. -/
def corner (o : LayoutOptions) (count k : Nat) : Point Float :=
  let columns := columnsFor count
  ⟨(k % columns).toFloat * (o.width / columns.toFloat),
    (k / columns).toFloat * (o.height / (ceilDiv count columns).toFloat)⟩

/-- When the components `done` have been put into their cells, the last node of each of their
ids is drawn in its cell, and all others are as they were. -/
structure Tiled (d : GraphData) (o : LayoutOptions) (count : Nat) (done : List (List String)) (t : Tiling) : Prop where
  cell : t.cell = done.length
  ids : t.data.ids = d.ids
  left : ∀ i n, d.nodes[i]? = some n → n.id ∉ done.flatten ∨ n.id ∈ d.ids.drop (i + 1) → t.data.nodes[i]? = some n
  drawn : ∀ i n, d.nodes[i]? = some n → n.id ∉ d.ids.drop (i + 1) →
    ∀ k component, done[k]? = some component → n.id ∈ component →
      ∃ m, t.data.nodes[i]? = some m ∧ m.pin? = n.pin? ∧
        ∀ p, n.pin? = some p → m.position = ⟨(corner o count k).x + p.x, (corner o count k).y + p.y⟩

/-- A simulation of the nodes of a component ends with the last node of an id where it draws it. -/
theorem exists_run {d : GraphData} {chosen : String → Bool} (o : LayoutOptions) (iterations : Nat)
    (g : Random.Generator) {i : Nat} {n : GraphNode} (hn : d.nodes[i]? = some n) (last : n.id ∉ d.ids.drop (i + 1))
    (hid : chosen n.id = true) :
    ∃ before m after, (Force.simulate (d.induced chosen) o iterations g).nodes = before ++ m :: after ∧
      n.Held m ∧ n.id ∉ after.map GraphNode.id := by
  have held := Force.simulate_held (d.induced chosen) o iterations g
  obtain ⟨hi, rfl⟩ := List.getElem?_eq_some_iff.mp hn
  have later : d.nodes[i].id ∉ ((d.nodes.drop (i + 1)).filter fun n => chosen n.id).map GraphNode.id := by
    rw [GraphData.ids, ← List.map_drop] at last
    exact fun h => last (List.map_subset _ List.filter_sublist.subset h)
  have nodes : (d.induced chosen).nodes = (d.nodes.take i).filter (fun n => chosen n.id) ++
      d.nodes[i] :: (d.nodes.drop (i + 1)).filter fun n => chosen n.id := by
    show d.nodes.filter (fun n => chosen n.id) = _
    conv_lhs => rw [← List.take_append_drop i d.nodes, List.drop_eq_getElem_cons hi]
    rw [List.filter_append, List.filter_cons_of_pos (by exact hid)]
  rw [nodes] at held
  obtain ⟨before, rest, hrun, hrest⟩ := GraphNode.split_held held
  cases hrest with
  | @cons _ m _ after here there =>
    refine ⟨before, m, after, hrun, here, ?_⟩
    rwa [GraphNode.map_held (fun _ _ => GraphNode.Held.id) there]

/-- Putting one more component into its cell. -/
theorem Tiled.tile {d : GraphData} {o : LayoutOptions} {count : Nat} {done : List (List String)} {t : Tiling}
    (h : Tiled d o count done t) {component : List String} (apart : ∀ id ∈ component, id ∉ done.flatten) :
    Tiled d o count (done ++ [component])
      (tile o (columnsFor count) (o.width / (columnsFor count).toFloat)
        (o.height / (ceilDiv count (columnsFor count)).toFloat) t component) := by
  let run := Force.simulate (t.data.induced component.contains)
    (o.withCanvas (o.width / (columnsFor count).toFloat) (o.height / (ceilDiv count (columnsFor count)).toFloat))
    o.iterations t.generator
  have placed : (Strategy.tile o (columnsFor count) (o.width / (columnsFor count).toFloat)
      (o.height / (ceilDiv count (columnsFor count)).toFloat) t component).data =
        placeFrom (corner o count done.length) run.nodes t.data := by
    rw [← h.cell]
    rfl
  have named {id : String} (hid : id ∈ run.nodes.map GraphNode.id) : id ∈ component := by
    rw [Force.simulate_ids] at hid
    obtain ⟨n, hn, rfl⟩ := List.mem_map.mp hid
    exact List.contains_iff_mem.mp (List.mem_filter.mp hn).2
  refine ⟨by simp [Strategy.tile, h.cell], by rw [placed, ids_placeFrom, h.ids], ?_, ?_⟩
  · intro i n hn free
    rw [List.flatten_append, List.mem_append, not_or] at free
    rw [placed]
    refine placeFrom_left _ (h.left i n hn (free.imp_left And.left)) ?_
    rw [h.ids]
    exact free.imp_left fun out hid => out.2 (by simpa using named hid)
  · intro i n hn last k c hc hid
    rw [placed]
    by_cases old : k < done.length
    · -- drawn before: no node of this component has that id
      rw [List.getElem?_append_left old] at hc
      obtain ⟨m, hm, pin, drawn⟩ := h.drawn i n hn last k c hc hid
      have known : n.id ∈ done.flatten := List.mem_flatten.mpr ⟨c, List.mem_of_getElem? hc, hid⟩
      have same : m.id = n.id := by
        have ids := congrArg (·[i]?) h.ids
        simpa [GraphData.ids, hm, hn] using ids
      refine ⟨m, placeFrom_left _ hm (.inl fun hid => apart m.id (named hid) (same ▸ known)), pin, drawn⟩
    · obtain rfl : k = done.length := by
        have := (List.getElem?_eq_some_iff.mp hc).1
        simp only [List.length_append, List.length_singleton] at this
        omega
      obtain rfl : component = c := by simpa using hc
      have still := h.left i n hn (.inl (apart n.id hid))
      obtain ⟨before, m, after, hrun, held, once⟩ := exists_run (o.withCanvas _ _) o.iterations t.generator
        still (h.ids ▸ last) (List.contains_iff_mem.mpr hid)
      obtain ⟨m', hm', pin, position⟩ := placeFrom_placed (corner o count done.length) before still (h.ids ▸ last)
        held.id once
      refine ⟨m', ?_, pin, fun p hp => ?_⟩
      · rw [← hm']
        exact congrArg (fun nodes => (placeFrom (corner o count done.length) nodes t.data).nodes[i]?) hrun
      · have at_pin := held.held p hp
        rw [position, ← at_pin]
        rfl

/-- All components in their cells. -/
theorem Tiled.foldl {d : GraphData} {o : LayoutOptions} {count : Nat} {done : List (List String)} {t : Tiling}
    (h : Tiled d o count done t) (rest : List (List String)) (apart : (done ++ rest).flatten.Nodup) :
    Tiled d o count (done ++ rest)
      (rest.foldl (Strategy.tile o (columnsFor count) (o.width / (columnsFor count).toFloat)
        (o.height / (ceilDiv count (columnsFor count)).toFloat)) t) := by
  induction rest generalizing done t with
  | nil => simpa using h
  | cons component rest ih =>
    rw [List.append_cons] at apart ⊢
    refine ih (h.tile fun id hid known => ?_) apart
    rw [List.flatten_append, List.flatten_append, List.flatten_singleton] at apart
    have disjoint := (List.nodup_append.mp (List.nodup_append.mp apart).1).2.2
    exact disjoint id known id hid rfl

/-- What a clustered layout draws: of every id the last node in the cell of its component,
its pin counted from the corner, and any other node where it was. -/
theorem clustered_drawn {drawn : Random.Generator} {d placed : GraphData} {o : LayoutOptions}
    {outcome : LayoutOutcome} (h : clustered drawn d o = .ok (placed, outcome)) :
    placed.ids = d.ids ∧ ∀ i n, d.nodes[i]? = some n → ∃ m, placed.nodes[i]? = some m ∧ m.pin? = n.pin? ∧
      if n.id ∈ d.ids.drop (i + 1) then m = n
      else ∃ k component, (SymbolGraph.ofGraphData d).connectedComponents[k]? = some component ∧ n.id ∈ component ∧
        ∀ p, n.pin? = some p →
          let corner := corner o (SymbolGraph.ofGraphData d).connectedComponents.length k
          m.position = ⟨corner.x + p.x, corner.y + p.y⟩ := by
  have known {i : Nat} {n : GraphNode} (hn : d.nodes[i]? = some n) :
      n.id ∈ (SymbolGraph.ofGraphData d).connectedComponents.flatten := by
    rw [(SymbolGraph.inStep_ofGraphData d).mem_connectedComponents, SymbolGraph.mem_nodes_ofGraphData]
    exact List.mem_map_of_mem (List.mem_of_getElem? hn)
  have nodup := (SymbolGraph.inStep_ofGraphData d).nodup_connectedComponents
  unfold clustered at h
  dsimp only at h
  generalize (SymbolGraph.ofGraphData d).connectedComponents = components at h known nodup ⊢
  split at h
  · rename_i none
    obtain ⟨rfl, -⟩ := Prod.ext_iff.mp (Except.ok.inj h)
    refine ⟨rfl, fun i n hn => ?_⟩
    have := known hn
    rw [List.isEmpty_iff.mp none] at this
    cases this
  · obtain ⟨rfl, -⟩ := Prod.ext_iff.mp (Except.ok.inj h)
    have start : Tiled d o components.length [] ⟨d, .placed, o.generator drawn, 0⟩ :=
      ⟨rfl, rfl, fun i n hn _ => hn, fun i n _ _ k component hc => nomatch hc⟩
    have tiled := start.foldl components nodup
    refine ⟨tiled.ids, fun i n hn => ?_⟩
    by_cases later : n.id ∈ d.ids.drop (i + 1)
    · exact ⟨n, tiled.left i n hn (.inr later), rfl, by rw [if_pos later]⟩
    · obtain ⟨component, hc, hid⟩ := List.mem_flatten.mp (known hn)
      obtain ⟨k, hk⟩ := List.getElem?_of_mem hc
      obtain ⟨m, hm, pin, place⟩ := tiled.drawn i n hn later k component hk hid
      exact ⟨m, hm, pin, by rw [if_neg later]; exact ⟨k, component, hk, hid, place⟩⟩

end Strategy

/-! ### Every layout that simulates -/

theorem map_eq_of_getElem? {β : Type} {f : GraphNode → β} {nodes placed : List GraphNode}
    (length : placed.length = nodes.length)
    (h : ∀ (i : Nat) n, nodes[i]? = some n → ∃ m, placed[i]? = some m ∧ f m = f n) : placed.map f = nodes.map f := by
  refine List.ext_getElem? fun i => ?_
  rw [List.getElem?_map, List.getElem?_map]
  cases hn : nodes[i]? with
  | none => rw [List.getElem?_eq_none (length ▸ List.getElem?_eq_none_iff.mp hn), Option.map_none]
  | some n =>
    obtain ⟨m, hm, same⟩ := h i n hn
    rw [hm, Option.map_some, Option.map_some, same]

/-- A result that has drawn every node with a pin at its pin. -/
def LayoutResult.DrawsPins (r : LayoutResult) (nodes : List GraphNode) : Prop :=
  ∃ points, r.Draws nodes points ∧
    ∀ (i : Nat) n p, nodes[i]? = some n → n.pin? = some p → points[i]? = some p

theorem drawsPins_of_held {r : LayoutResult} {nodes run : List GraphNode} (fitted : r.IsFitted run)
    (held : List.Forall₂ GraphNode.Held nodes run) : r.DrawsPins nodes := by
  refine ⟨run.map GraphNode.position, fitted.draws (GraphNode.map_held (fun _ _ => GraphNode.Held.id) held)
    (GraphNode.map_held (fun _ _ => GraphNode.Held.pin) held), fun i n p hn hp => ?_⟩
  obtain ⟨hi, rfl⟩ := List.getElem?_eq_some_iff.mp hn
  have hi' : i < run.length := held.length_eq ▸ hi
  rw [List.getElem?_map, List.getElem?_eq_getElem hi', Option.map_some]
  exact congrArg some ((List.forall₂_iff_get.mp held).2 i hi hi' |>.held p hp)

/-- Whatever else is drawn, a layout that simulates draws every node with a pin at its pin, in
a clustered layout counted from the corner of the cell of its component, if no other node of
its id comes after it. Then it is fitted into the canvas: one map for all points, pins
included, gives the places. -/
theorem pins_are_fitted :
    (∀ (e : LayoutEngine) drawn d algorithm u r tag, e.resolve algorithm = .ok (tag, Strategy.forceDirected) →
      e.compute? drawn d algorithm u = .ok r → r.DrawsPins d.nodes) ∧
    (∀ drawn previous extra r, optimize? drawn previous extra = .ok r → r.DrawsPins previous.nodes) ∧
    (∀ (e : LayoutEngine) drawn d algorithm u r tag, e.resolve algorithm = .ok (tag, Strategy.clustered) →
      e.compute? drawn d algorithm u = .ok r → ∃ points, r.Draws d.nodes points ∧
        ∀ i n p, d.nodes[i]? = some n → n.pin? = some p → n.id ∉ d.ids.drop (i + 1) →
          ∃ k component, (SymbolGraph.ofGraphData d).connectedComponents[k]? = some component ∧
            n.id ∈ component ∧
            let corner := Strategy.corner r.options (SymbolGraph.ofGraphData d).connectedComponents.length k
            points[i]? = some ⟨corner.x + p.x, corner.y + p.y⟩) := by
  refine ⟨fun e drawn d algorithm u r tag resolved computed => ?_, fun drawn previous extra r improved => ?_,
    fun e drawn d algorithm u r tag resolved computed => ?_⟩
  · obtain ⟨-, strategy, placed, outcome, resolved', laidOut, fitted⟩ := compute?_fitted computed
    obtain ⟨-, rfl⟩ := Prod.ext_iff.mp (Except.ok.inj (resolved.symm.trans resolved'))
    obtain ⟨rfl, -⟩ := Prod.ext_iff.mp (Except.ok.inj laidOut)
    exact drawsPins_of_held fitted
      (Force.simulate_held d r.options r.options.iterations (r.options.generator drawn))
  · have fitted := optimize?_fitted improved
    have held := Force.simulate_held
      { nodes := previous.nodes.map fun n => { n with positioned := true }, edges := previous.edges } previous.options
      (extra.getD previous.options.iterations) (previous.options.generator drawn)
    rw [List.forall₂_map_left_iff] at held
    exact drawsPins_of_held fitted (held.imp fun n m h => ⟨h.id, h.pin, h.held⟩)
  · obtain ⟨-, strategy, placed, outcome, resolved', laidOut, fitted⟩ := compute?_fitted computed
    obtain ⟨-, rfl⟩ := Prod.ext_iff.mp (Except.ok.inj (resolved.symm.trans resolved'))
    obtain ⟨ids, nodes⟩ := Strategy.clustered_drawn laidOut
    have length : placed.nodes.length = d.nodes.length := by
      simpa [GraphData.ids] using congrArg List.length ids
    have pins : placed.nodes.map GraphNode.pin? = d.nodes.map GraphNode.pin? :=
      map_eq_of_getElem? length fun i n hn => (nodes i n hn).imp fun m h => ⟨h.1, h.2.1⟩
    refine ⟨placed.nodes.map GraphNode.position, fitted.draws ids pins, fun i n p hn hp last => ?_⟩
    obtain ⟨m, hm, -, place⟩ := nodes i n hn
    rw [if_neg last] at place
    obtain ⟨k, component, hc, hid, position⟩ := place
    rw [List.getElem?_map, hm, Option.map_some]
    exact ⟨k, component, hc, hid, congrArg some (position p hp)⟩

/-- A node with a pin and a free one, with no link between them. -/
def pinBesideFree : GraphData :=
  { nodes := [pinnedAt "a" (-10.0), { GraphNode.ofSymbol default with id := "b", y := 30.0, positioned := true }] }

theorem components_pinBesideFree : (SymbolGraph.ofGraphData pinBesideFree).connectedComponents = [["a"], ["b"]] := by
  have inner : (SymbolGraph.ofGraphData pinBesideFree).inner = { labels := ["a", "b"] } := rfl
  have alone (v : Nat) : ({ labels := ["a", "b"] } : Multigraph).around v = [] := rfl
  rw [SymbolGraph.connectedComponents, inner, Multigraph.components]
  simp [Multigraph.componentsFrom, Multigraph.nodeCount, List.range_succ, Multigraph.discover, alone, Multigraph.label]

def twoSteps : LayoutOptionsUpdate := { iterations := some 2 }

/-- Each of the two in its own cell. -/
def pinBesideFreeTiles : Strategy.Tiling :=
  let o := twoSteps.apply {}
  let columns := Strategy.columnsFor 2
  let rows := Strategy.ceilDiv 2 columns
  [["a"], ["b"]].foldl (Strategy.tile o columns (o.width / columns.toFloat) (o.height / rows.toFloat))
    ⟨pinBesideFree, .placed, o.generator (.ofSeed 0), 0⟩

theorem clustered_pinBesideFree :
    ∃ r, (ofDefaults {}).compute? (.ofSeed 0) pinBesideFree LayoutAlgorithm.clustered.tag twoSteps = .ok r ∧
      r.iterations = 2 := by
  have tiled : Strategy.clustered (.ofSeed 0) pinBesideFree (twoSteps.apply {}) =
      .ok (pinBesideFreeTiles.data, pinBesideFreeTiles.outcome) := by
    rw [Strategy.clustered, components_pinBesideFree]
    rfl
  have checked : pinBesideFreeTiles.data.nodes.all isPlaced = true := by decide +kernel
  have steps : pinBesideFreeTiles.outcome.iterations = 2 := by decide +kernel
  have resolved : (ofDefaults {}).resolve LayoutAlgorithm.clustered.tag =
      .ok (LayoutAlgorithm.clustered.tag, Strategy.clustered) := rfl
  rw [← steps]
  exact compute?_of_placed resolved rfl tiled (List.all_eq_true.mp checked)

/-- A pin is drawn where it is while a node in another component moves, and drawn there once
more from the result; in a clustered layout it is counted from the corner of its cell. -/
theorem pin_beside_free_is_drawn :
    ∃ r r' r'', (ofDefaults {}).compute? (.ofSeed 0) pinBesideFree LayoutAlgorithm.forceDirected.tag twoSteps = .ok r ∧
      optimize? (.ofSeed 0) r (some 2) = .ok r' ∧
      (ofDefaults {}).compute? (.ofSeed 0) pinBesideFree LayoutAlgorithm.clustered.tag twoSteps = .ok r'' ∧
      r.iterations = 2 ∧ r'.iterations = 4 ∧ r''.iterations = 2 ∧
      r.DrawsPins pinBesideFree.nodes ∧ r'.DrawsPins r.nodes ∧
      ∃ points, r''.Draws pinBesideFree.nodes points ∧
        ∃ k component, [["a"], ["b"]][k]? = some component ∧ "a" ∈ component ∧
          let corner := Strategy.corner r''.options 2 k
          points[0]? = some ⟨corner.x + -10.0, corner.y + 0.0⟩ := by
  have simulated : ((ofDefaults {}).compute? (.ofSeed 0) pinBesideFree LayoutAlgorithm.forceDirected.tag
      twoSteps).toOption.any (fun r => r.iterations == 2 &&
        (optimize? (.ofSeed 0) r (some 2)).toOption.any (·.iterations == 4)) = true := by
    decide +kernel
  obtain ⟨r, h, simulated⟩ := exists_ok_of_any simulated
  obtain ⟨steps, resumed⟩ := Bool.and_eq_true_iff.mp simulated
  obtain ⟨r', h', steps'⟩ := exists_ok_of_any resumed
  obtain ⟨r'', h'', steps''⟩ := clustered_pinBesideFree
  have drawn := pins_are_fitted.1 (ofDefaults {}) (.ofSeed 0) pinBesideFree LayoutAlgorithm.forceDirected.tag
    twoSteps r LayoutAlgorithm.forceDirected.tag rfl h
  have again := pins_are_fitted.2.1 (.ofSeed 0) r (some 2) r' h'
  obtain ⟨points, draws, counted⟩ := pins_are_fitted.2.2 (ofDefaults {}) (.ofSeed 0) pinBesideFree
    LayoutAlgorithm.clustered.tag twoSteps r'' LayoutAlgorithm.clustered.tag rfl h''
  rw [components_pinBesideFree] at counted
  have place := counted 0 (pinnedAt "a" (-10.0)) ⟨-10.0, 0.0⟩ rfl rfl (by decide +kernel)
  exact ⟨r, r', r'', h, h', h'', by simpa using steps, by simpa using steps', steps'', drawn, again, points, draws, place⟩

/-- A node is not always laid out at its pin: alone, it is laid out in the middle of the canvas. -/
theorem pin_is_moved :
    ¬ ∀ defaults drawn d u r, (ofDefaults defaults).compute? drawn d LayoutAlgorithm.forceDirected.tag u = .ok r →
      ∀ n ∈ r.nodes, ∀ x y, n.fx = some x → n.fy = some y → n.x = x ∧ n.y = y := by
  intro h
  let alone : GraphData := { nodes := [pinnedAt "a" 10.0] }
  have found : ((ofDefaults {}).compute? (.ofSeed 0) alone LayoutAlgorithm.forceDirected.tag {}).toOption.any
      (fun r => r.nodes.any fun n => n.fy.isSome && n.fx.any fun x => n.x.toBits != x.toBits) = true := by
    decide +kernel
  obtain ⟨r, hr, moved⟩ := exists_ok_of_any found
  obtain ⟨n, hn, moved⟩ := List.any_eq_true.mp moved
  obtain ⟨hy, hx⟩ := Bool.and_eq_true_iff.mp moved
  obtain ⟨y, hy⟩ := Option.isSome_iff_exists.mp hy
  obtain ⟨x, hx, apart⟩ := (Option.any_eq_true _ _).mp hx
  simp [(h {} _ _ {} r hr n hn x y hx hy).1] at apart

end CodeAtlas
