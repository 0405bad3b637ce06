import CodeAtlas.Proofs.Json.Faithful
import CodeAtlas.Proofs.KeyMap
import CodeAtlas.Proofs.Layout.Keys
import CodeAtlas.Proofs.Layout.Pins

/-! A layout is read back as it was computed, or not at all.

Of the numbers of a layout only pins and strengths may be missing, so these have to be
finite for a layout to be read back faithfully (`LayoutResult.IsRecallable`). Strategies
move nodes and leave everything else as it is (`Strategy.MovesOnly`): the layout of a
finite graph has the pins and strengths of the graph (`recallable_of_compute?`). What is
drawn for a layout does not matter to it if it has a seed, or draws nothing
(`compute?_settled`). -/
namespace CodeAtlas
open Json LayoutEngine

/-! ### Forms -/

theorem faithful_layoutOptions (o : LayoutOptions) : Faithful o := by
  refine ReadsAtMost.record? (.withDefault ?_ (faithful_float _) <| .withDefault ?_ (faithful_float _) <|
    .withDefault ?_ (faithful_float _) <| .withDefault ?_ (faithful_float _) <|
    .withDefault ?_ (faithful_of_lawful _) <| .withDefault ?_ (faithful_float _) <|
    .withDefault ?_ (faithful_float _) <| .withDefault ?_ (faithful_float _) <|
    .withDefault ?_ (faithful_float _) <| .withDefault ?_ (faithful_float _) <|
    .withDefault ?_ (faithful_float _) <|
    .optional ?_ (fun n _ => ⟨faithful_of_lawful n, encode_ne_null n⟩) .pure)
  all_goals simp

/-- The numbers that are there are finite. -/
def FinitePin (o : Option Float) : Prop := ∀ x ∈ o, x.isFinite = true

theorem faithful_graphNode {n : GraphNode} (hx : FinitePin n.fx) (hy : FinitePin n.fy) : Faithful n := by
  have pin {o : Option Float} (h : FinitePin o) : ∀ x ∈ o, Faithful x ∧ encode x ≠ .null := by
    intro x hx
    refine ⟨faithful_float x, ?_⟩
    show ofFloat x ≠ .null
    rw [ofFloat, if_pos (h x hx)]
    exact Json.noConfusion
  refine ReadsAtMost.record? (.required ?_ (faithful_of_lawful _) <| .required ?_ (faithful_of_lawful _) <|
    .required ?_ (faithful_float _) <| .required ?_ (faithful_float _) <| .required ?_ (faithful_float _) <|
    .required ?_ (faithful_float _) <| .optional ?_ (pin hx) <| .optional ?_ (pin hy) <|
    .required ?_ (faithful_float _) <| .required ?_ (faithful_of_lawful _) <| .required ?_ (faithful_of_lawful _) <|
    .withDefault ?_ (faithful_of_lawful _) .pure)
  all_goals simp

theorem faithful_relationshipMetadata {m : RelationshipMetadata} (h : ∀ x ∈ m.strength, x.isFinite = true) :
    Faithful m := by
  have strength : ∀ x ∈ m.strength, Faithful x ∧ encode x ≠ .null := by
    intro x hx
    refine ⟨faithful_single (h x hx), ?_⟩
    rw [encode_single (h x hx)]
    exact Json.noConfusion
  refine ReadsAtMost.record? (.optional ?_ strength <|
    .optional ?_ (fun c _ => ⟨faithful_of_lawful c, encode_ne_null c⟩) <|
    .optional ?_ (fun d _ => ⟨faithful_of_lawful d, encode_ne_null d⟩) <|
    .withDefault ?_ (faithful_of_lawful _) .pure)
  · cases m.strength with
    | none => simp
    | some x => exact lookup_put "strength" "strength" (encode x) _
  all_goals simp

theorem faithful_relationship {r : Relationship} (h : ∀ x ∈ r.metadata.strength, x.isFinite = true) : Faithful r :=
  ReadsAtMost.record? (.required rfl (faithful_of_lawful _) <| .required rfl (faithful_of_lawful _) <|
    .required rfl (faithful_of_lawful _) <| .withDefault rfl (faithful_relationshipMetadata h) .pure)

theorem faithful_graphEdge {e : GraphEdge} (h : ∀ x ∈ e.relationship.metadata.strength, x.isFinite = true) :
    Faithful e :=
  ReadsAtMost.record? (.required rfl (faithful_of_lawful _) <| .required rfl (faithful_of_lawful _) <|
    .required rfl (faithful_relationship h) <| .required rfl (faithful_float _) <|
    .required rfl (faithful_of_lawful _) <| .required rfl (faithful_float _) .pure)

/-- The pins and strengths that are there are finite. -/
structure LayoutResult.IsRecallable (r : LayoutResult) : Prop where
  pins : ∀ n ∈ r.nodes, FinitePin n.fx ∧ FinitePin n.fy
  ratings : ∀ e ∈ r.edges, ∀ x ∈ e.relationship.metadata.strength, x.isFinite = true

theorem LayoutResult.IsRecallable.faithful {r : LayoutResult} (h : r.IsRecallable) : Faithful r :=
  have nodes := faithful_list fun n hn => faithful_graphNode (h.pins n hn).1 (h.pins n hn).2
  have edges := faithful_list fun e he => faithful_graphEdge (h.ratings e he)
  ReadsAtMost.record? (.required rfl nodes <| .required rfl edges <| .required rfl (faithful_of_lawful _) <|
    .required rfl (faithful_layoutOptions _) <| .required rfl (faithful_of_lawful _) <|
    .required rfl (faithful_of_lawful _) <| .required rfl (faithful_float _) .pure)

/-! ### What strategies leave as it is -/

namespace Strategy

section
variable {β : Type} {part : GraphNode → β} (same : GraphNode.IsLasting part)
include same

theorem map_placeEach (d : GraphData) (place : Nat → Float × Float) :
    (placeEach d place).nodes.map part = d.nodes.map part := by
  have placed (nodes : List GraphNode) (place : Nat → Float × Float) :
      (nodes.mapIdx fun i n => n.setPosition (place i).1 (place i).2).map part = nodes.map part := by
    induction nodes generalizing place with
    | nil => rfl
    | cons n rest ih =>
      rw [List.mapIdx_cons, List.map_cons, List.map_cons, ih fun i => place (i + 1)]
      exact congrArg (· :: rest.map part) (same n (place 0).1 (place 0).2 n.vx n.vy true)
  exact placed d.nodes place

theorem map_placeById (d : GraphData) (id : String) (x y : Float) :
    (placeById d id x y).nodes.map part = d.nodes.map part := by
  rw [placeById_nodes]
  exact map_placeLast same id x y d.nodes

theorem map_placeFrom (corner : Point Float) (moved : List GraphNode) (d : GraphData) :
    (placeFrom corner moved d).nodes.map part = d.nodes.map part := by
  induction moved generalizing d with
  | nil => rfl
  | cons m rest ih => exact (ih _).trans (map_placeById same d m.id _ _)

theorem map_scatter (xs ys : Float × Float) (nodes : List GraphNode) (g : Random.Generator) :
    (scatter xs ys nodes g).map part = nodes.map part := by
  induction nodes generalizing g with
  | nil => rfl
  | cons n rest ih =>
    simp only [scatter, List.map_cons, ih]
    exact congrArg (· :: rest.map part) (same n _ _ n.vx n.vy true)

end

theorem edges_placeById (d : GraphData) (id : String) (x y : Float) : (placeById d id x y).edges = d.edges := by
  unfold placeById
  split <;> rfl

theorem edges_placeFrom (corner : Point Float) (moved : List GraphNode) (d : GraphData) :
    (placeFrom corner moved d).edges = d.edges := by
  induction moved generalizing d with
  | nil => rfl
  | cons m rest ih => exact (ih _).trans (edges_placeById d m.id _ _)

/-- A graph with the same edges and the same nodes, wherever these are. -/
structure Moved (d d' : GraphData) : Prop where
  edges : d'.edges = d.edges
  nodes : ∀ {β : Type} {part : GraphNode → β}, GraphNode.IsLasting part → d'.nodes.map part = d.nodes.map part

theorem moved_tile (o : LayoutOptions) (columns : Nat) (width height : Float) (t : Tiling) (component : List String) :
    Moved t.data (tile o columns width height t component).data := by
  let corner : Point Float := ⟨(t.cell % columns).toFloat * width, (t.cell / columns).toFloat * height⟩
  let run := Force.simulate (t.data.induced component.contains) (o.withCanvas width height) o.iterations t.generator
  exact ⟨edges_placeFrom corner run.nodes t.data, fun same => map_placeFrom same corner run.nodes t.data⟩

theorem moved_tiles (o : LayoutOptions) (columns : Nat) (width height : Float) (components : List (List String))
    (t : Tiling) : Moved t.data (components.foldl (tile o columns width height) t).data := by
  induction components generalizing t with
  | nil => exact ⟨rfl, fun _ => rfl⟩
  | cons component rest ih =>
    have first := moved_tile o columns width height t component
    have others := ih (tile o columns width height t component)
    exact ⟨others.edges.trans first.edges, fun same => (others.nodes same).trans (first.nodes same)⟩

/-- The strategy moves nodes and changes nothing else. -/
def MovesOnly (s : Strategy) : Prop :=
  ∀ drawn d o placed outcome, s drawn d o = .ok (placed, outcome) → Moved d placed

theorem movesOnly_ofAlgorithm (a : LayoutAlgorithm) : MovesOnly (ofAlgorithm a) := by
  intro drawn d o placed outcome h
  cases a with
  | forceDirected =>
    obtain ⟨rfl, -⟩ := Prod.ext_iff.mp (Except.ok.inj h)
    exact ⟨rfl, fun same => Force.map_simulate same d o o.iterations (o.generator drawn)⟩
  | hierarchical | circular | grid =>
    obtain ⟨rfl, -⟩ := Prod.ext_iff.mp (Except.ok.inj h)
    exact ⟨rfl, fun same => map_placeEach same d _⟩
  | clustered =>
    change clustered drawn d o = _ at h
    unfold clustered at h
    dsimp only at h
    split at h
    · obtain ⟨rfl, -⟩ := Prod.ext_iff.mp (Except.ok.inj h)
      exact ⟨rfl, fun _ => rfl⟩
    · obtain ⟨rfl, -⟩ := Prod.ext_iff.mp (Except.ok.inj h)
      exact moved_tiles _ _ _ _ _ ⟨d, .placed, o.generator drawn, 0⟩
  | random =>
    obtain ⟨rfl, -⟩ := Prod.ext_iff.mp (Except.ok.inj h)
    exact ⟨rfl, fun same => map_scatter same _ _ d.nodes (o.generator drawn)⟩

/-! ### What is drawn -/

/-- With a seed the strategy gives the same whatever is drawn. -/
def KeepsToSeed (s : Strategy) : Prop := ∀ d o, o.seed ≠ none → ∀ drawn drawn', s drawn d o = s drawn' d o

/-- The strategy gives the same whatever is drawn. -/
def DrawsNothing (s : Strategy) : Prop := ∀ d o drawn drawn', s drawn d o = s drawn' d o

theorem generator_of_seed {o : LayoutOptions} (h : o.seed ≠ none) (drawn drawn' : Random.Generator) :
    o.generator drawn = o.generator drawn' := by
  obtain ⟨seed, hseed⟩ := Option.ne_none_iff_exists'.mp h
  rw [LayoutOptions.generator, LayoutOptions.generator, hseed]

theorem keepsToSeed_ofAlgorithm (a : LayoutAlgorithm) : KeepsToSeed (ofAlgorithm a) := by
  intro d o h drawn drawn'
  have same := generator_of_seed h drawn drawn'
  cases a with
  | hierarchical | circular | grid => rfl
  | forceDirected => simp only [ofAlgorithm, forceDirected, same]
  | clustered => simp only [ofAlgorithm, clustered, same]
  | random => simp only [ofAlgorithm, random, same]

end Strategy

/-! ### Layouts of finite graphs -/

namespace LayoutEngine

/-- All strategies have a property. -/
def AllStrategies (holds : Strategy → Prop) (e : LayoutEngine) : Prop :=
  ∀ tag s, (tag, s) ∈ e.strategies.entries → holds s

variable {e : LayoutEngine} {holds : Strategy → Prop} {drawn : Random.Generator} {d : GraphData} {algorithm : String}
  {u : LayoutOptionsUpdate} {r : LayoutResult}

/-- More strategies, each under its tag. -/
def registerAll (e : LayoutEngine) (strategies : List (String × Strategy)) : LayoutEngine :=
  strategies.foldl (fun e s => e.register s.1 s.2) e

theorem AllStrategies.registerAll {strategies : List (String × Strategy)} (h : e.AllStrategies holds)
    (hs : ∀ s ∈ strategies, holds s.2) : (e.registerAll strategies).AllStrategies holds := by
  induction strategies generalizing e with
  | nil => exact h
  | cons first rest ih =>
    refine @ih (e.register first.1 first.2) (fun tag s mem => ?_) fun s mem => hs s (List.mem_cons_of_mem first mem)
    obtain mem | mem := KeyMap.mem_insertEntry mem
    · rw [(Prod.mk.inj mem).2]
      exact hs first List.mem_cons_self
    · exact h tag s mem

theorem allStrategies_ofDefaults (builtIn : ∀ a, holds (.ofAlgorithm a)) (defaults : LayoutOptions) :
    (ofDefaults defaults).AllStrategies holds := by
  have none : AllStrategies holds { defaults } := nofun
  let tagged : List (String × Strategy) := LayoutAlgorithm.all.map fun a => (a.tag, .ofAlgorithm a)
  have all : (LayoutEngine.registerAll { defaults } tagged).AllStrategies holds := by
    refine none.registerAll fun s hs => ?_
    obtain ⟨a, -, rfl⟩ := List.mem_map.mp hs
    exact builtIn a
  rwa [LayoutEngine.registerAll, List.foldl_map] at all

theorem AllStrategies.resolve (h : e.AllStrategies holds) {tag : String} {s : Strategy}
    (found : e.resolve algorithm = .ok (tag, s)) : holds s := by
  unfold LayoutEngine.resolve at found
  split at found
  · rename_i hs
    obtain ⟨-, rfl⟩ := Prod.mk.inj (Except.ok.inj found)
    exact h _ _ (KeyMap.mem_of_find? hs)
  · split at found
    · cases found
    · split at found
      · rename_i hs
        obtain ⟨-, rfl⟩ := Prod.mk.inj (Except.ok.inj found)
        exact h _ _ (KeyMap.mem_of_find? hs)
      · cases found

/-- A layout is the graph with its nodes moved. -/
theorem moved_compute? (moves : e.AllStrategies Strategy.MovesOnly) (h : e.compute? drawn d algorithm u = .ok r) :
    Strategy.Moved d { nodes := r.nodes, edges := r.edges } := by
  obtain ⟨⟨tag, strategy⟩, resolved, h⟩ := ok_of_bind h
  obtain ⟨⟨⟩, -, h⟩ := ok_of_bind h
  obtain ⟨⟨placed, outcome⟩, laidOut, h⟩ := ok_of_bind h
  obtain ⟨⟨⟩, -, h⟩ := ok_of_bind h
  cases h
  have moved := moves.resolve resolved drawn d _ placed outcome (ok_of_mapError laidOut)
  refine ⟨moved.edges, fun {β part} same => ?_⟩
  exact (normalize_map part (fun n p => same n p.x p.y n.vx n.vy true) _ _).trans (moved.nodes same)

theorem seed_scaleForSize (o : LayoutOptions) (count : Nat) : (scaleForSize o count).seed = o.seed := by
  unfold scaleForSize
  split <;> rfl

/-- With a seed, or by a strategy that draws nothing, a layout is made in one way. -/
theorem compute?_settled (keep : e.AllStrategies Strategy.KeepsToSeed)
    (settled : (u.apply e.defaults).seed ≠ none ∨ ∀ tag s, e.resolve algorithm = .ok (tag, s) → s.DrawsNothing)
    (drawn' : Random.Generator) : e.compute? drawn d algorithm u = e.compute? drawn' d algorithm u := by
  unfold compute?
  cases resolved : e.resolve algorithm with
  | error cause => rfl
  | ok found =>
    obtain ⟨tag, s⟩ := found
    have same : s drawn d (scaleForSize (u.apply e.defaults) d.nodes.length) =
        s drawn' d (scaleForSize (u.apply e.defaults) d.nodes.length) := by
      refine settled.elim (fun seeded => ?_) fun nothing => nothing tag s resolved _ _ _ _
      exact keep.resolve resolved d _ (by rwa [seed_scaleForSize]) drawn drawn'
    simp only [bind, Except.bind, same]

/-- A layout of a finite graph is read back faithfully. -/
theorem recallable_of_compute? (moves : e.AllStrategies Strategy.MovesOnly) (finite : d.AllFinite)
    (h : e.compute? drawn d algorithm u = .ok r) : r.IsRecallable := by
  have moved := moved_compute? moves h
  refine ⟨fun n hn => ?_, fun edge hedge => finite.ratings edge (moved.edges ▸ hedge)⟩
  have pins : (r.nodes.map fun n => (n.fx, n.fy)) = d.nodes.map fun n => (n.fx, n.fy) :=
    moved.nodes fun _ _ _ _ _ _ => rfl
  have mem : (n.fx, n.fy) ∈ d.nodes.map fun n => (n.fx, n.fy) := pins ▸ List.mem_map_of_mem hn
  obtain ⟨m, hm, same⟩ := List.mem_map.mp mem
  obtain ⟨hx, hy⟩ := Prod.mk.inj same
  rw [← hx, ← hy]
  refine ⟨fun x hx => finite.nodes m hm x ?_, fun y hy => finite.nodes m hm y ?_⟩
  · simp [GraphNode.fractions, Option.mem_def.mp hx]
  · simp [GraphNode.fractions, Option.mem_def.mp hy]

end LayoutEngine

/-! ### Options of layouts -/

/-- All fractions of the options. -/
def LayoutOptions.fractions (o : LayoutOptions) : List Float :=
  [o.width, o.height, o.padding] ++ o.forces.map Prod.snd

/-- Options that can be used are finite. -/
theorem finite_of_usable {o : LayoutOptions} (h : o.fault? = none) : ∀ x ∈ o.fractions, x.isFinite = true := by
  obtain ⟨width, height, padding⟩ := frame_of_usable h
  have forces : ∀ x ∈ o.forces.map Prod.snd, x.isFinite = true := by
    unfold LayoutOptions.fault? at h
    split at h
    · cases h
    · split at h
      · cases h
      · have none := Option.map_eq_none_iff.mp h
        intro x hx
        obtain ⟨⟨name, x⟩, listed, rfl⟩ := List.mem_map.mp hx
        simpa using List.find?_eq_none.mp none (name, x) listed
  simp only [LayoutOptions.fractions, List.cons_append, List.nil_append, List.forall_mem_cons]
  exact ⟨width.1, height.1, padding.1, forces⟩

/-- A charge that was halved for a large graph was finite before. -/
theorem finite_of_scaleForSize {o : LayoutOptions} {count : Nat}
    (h : ∀ x ∈ (scaleForSize o count).fractions, x.isFinite = true) : ∀ x ∈ o.fractions, x.isFinite = true := by
  unfold scaleForSize at h
  split at h
  · simp only [LayoutOptions.fractions, LayoutOptions.forces, List.map_cons, List.map_nil, List.cons_append,
      List.nil_append, List.forall_mem_cons] at h ⊢
    obtain ⟨width, height, padding, nodeSpacing, gravity, charge, others⟩ := h
    refine ⟨width, height, padding, nodeSpacing, gravity, ?_, others⟩
    by_contra lost
    have half := Binary64.not_finite_div_left (y := 2.0) (Bool.not_eq_true _ ▸ lost) rfl
    rw [half] at charge
    cases charge
  · exact h

/-- Every fraction of an update is one of the options it makes. -/
theorem mem_fractions_apply {u : LayoutOptionsUpdate} (o : LayoutOptions) {f : Option Float} {x : Float}
    (hf : f ∈ u.fractions) (hx : f = some x) : x ∈ (u.apply o).fractions := by
  simp only [LayoutOptionsUpdate.fractions, List.mem_cons, List.not_mem_nil, or_false] at hf
  rcases hf with rfl | rfl | rfl | rfl | rfl | rfl | rfl | rfl | rfl | rfl <;>
    simp [LayoutOptions.fractions, LayoutOptions.forces, LayoutOptionsUpdate.apply, hx]

/-- An update by which a layout was computed is finite. -/
theorem allFinite_of_compute? {e : LayoutEngine} {drawn : Random.Generator} {d : GraphData} {algorithm : String}
    {u : LayoutOptionsUpdate} {r : LayoutResult} (h : e.compute? drawn d algorithm u = .ok r) : u.AllFinite := by
  obtain ⟨options, strategy, placed, outcome, -, -, fitted⟩ := compute?_fitted h
  have finite := finite_of_usable fitted.usable
  rw [options] at finite
  exact fun f hf x hx => finite_of_scaleForSize finite x (mem_fractions_apply _ hf hx)

end CodeAtlas
