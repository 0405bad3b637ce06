import CodeAtlas.Layout.Engine
import Mathlib.Data.List.Basic

/-! Nodes that are placed by their ids.

A simulation gives back its nodes in order under their ids, and each is then placed in
the graph it was taken from: of a repeated id the last node is moved, and the others
stay where they were. So what becomes of a list of nodes is told node by node
(`Settled`), and whether all of them are placed in the end is decided by those that
were left alone (`Settled.placed_iff`). -/
namespace CodeAtlas
open LayoutEngine (isPlaced)

/-! ### The last node of an id -/

def hasId (id : String) (nodes : List GraphNode) : Bool := nodes.any (·.id == id)

/-- Place the last node of an id. -/
def placeLast (id : String) (x y : Float) : List GraphNode → List GraphNode
  | [] => []
  | n :: rest =>
    if hasId id rest then n :: placeLast id x y rest
    else if n.id == id then n.setPosition x y :: rest else n :: rest

theorem indexOf?_go (id : String) (nodes : List GraphNode) (i : Nat) (found : Option Nat) :
    GraphData.indexOf?.go id i found nodes =
      ((GraphData.indexOf?.go id 0 none nodes).map (i + ·)).or found := by
  induction nodes generalizing i found with
  | nil => rfl
  | cons n rest ih =>
    simp only [GraphData.indexOf?.go]
    rw [ih (i + 1), ih 1 (if n.id == id then some 0 else none)]
    cases GraphData.indexOf?.go id 0 none rest <;> split <;> simp [Nat.add_assoc]

theorem indexOf?_cons (id : String) (n : GraphNode) (rest : List GraphNode) :
    GraphData.indexOf?.go id 0 none (n :: rest) =
      ((GraphData.indexOf?.go id 0 none rest).map (· + 1)).or (if n.id == id then some 0 else none) := by
  rw [GraphData.indexOf?.go, indexOf?_go]
  simp only [Nat.add_comm]

theorem isSome_indexOf? (id : String) (nodes : List GraphNode) :
    (GraphData.indexOf?.go id 0 none nodes).isSome = hasId id nodes := by
  induction nodes with
  | nil => rfl
  | cons n rest ih =>
    rw [indexOf?_cons, hasId, List.any_cons, ← hasId, ← ih]
    cases GraphData.indexOf?.go id 0 none rest <;> cases h : n.id == id <;> simp

theorem placeById_nodes (d : GraphData) (id : String) (x y : Float) :
    (Strategy.placeById d id x y).nodes = placeLast id x y d.nodes := by
  have placed (nodes : List GraphNode) :
      ((GraphData.indexOf?.go id 0 none nodes).elim nodes fun i => nodes.modify i fun n => n.setPosition x y) =
        placeLast id x y nodes := by
    induction nodes with
    | nil => rfl
    | cons n rest ih =>
      rw [indexOf?_cons, placeLast, ← isSome_indexOf?]
      cases h : GraphData.indexOf?.go id 0 none rest with
      | none => cases h' : n.id == id <;> simp
      | some i => simpa [h] using ih
  rw [← placed d.nodes, Strategy.placeById, GraphData.indexOf?]
  split <;> simp_all

/-! ### Settled nodes -/

/-- What becomes of nodes when those of some ids are placed: the last node of each such id
is at a finite place, all others are as they were. -/
inductive Settled (ids : List String) : List GraphNode → List GraphNode → Prop
  | nil : Settled ids [] []
  | placed {n m : GraphNode} {before after : List GraphNode} (listed : n.id ∈ ids)
      (last : hasId n.id before = false) (same : m.id = n.id) (placed : isPlaced m = true)
      (rest : Settled ids before after) : Settled ids (n :: before) (m :: after)
  | left {n : GraphNode} {before after : List GraphNode} (free : n.id ∉ ids ∨ hasId n.id before = true)
      (rest : Settled ids before after) : Settled ids (n :: before) (n :: after)

/-- The nodes that are not placed when those of some ids are. -/
def leftAlone (touched : String → Bool) : List GraphNode → List GraphNode
  | [] => []
  | n :: rest =>
    if touched n.id && !hasId n.id rest then leftAlone touched rest else n :: leftAlone touched rest

namespace Settled

variable {ids : List String} {before after : List GraphNode}

theorem start (nodes : List GraphNode) : Settled [] nodes nodes := by
  induction nodes with
  | nil => exact .nil
  | cons n rest ih => exact .left (.inl (by simp)) ih

theorem hasId_eq (h : Settled ids before after) (id : String) : hasId id after = hasId id before := by
  induction h with
  | nil => rfl
  | placed _ _ same _ _ ih => simp only [hasId, List.any_cons, same] at ih ⊢; rw [ih]
  | left _ _ ih => simp only [hasId, List.any_cons] at ih ⊢; rw [ih]

/-- An id that no node has makes no difference. -/
theorem add_unknown (h : Settled ids before after) {id : String} (unknown : hasId id before = false) :
    Settled (id :: ids) before after := by
  induction h with
  | nil => exact .nil
  | placed listed last same placed _ ih =>
    simp only [hasId, List.any_cons, Bool.or_eq_false_iff] at unknown
    exact .placed (List.mem_cons_of_mem _ listed) last same placed (ih unknown.2)
  | left free _ ih =>
    simp only [hasId, List.any_cons, Bool.or_eq_false_iff, beq_eq_false_iff_ne] at unknown
    refine .left (free.imp_left fun new => ?_) (ih unknown.2)
    exact fun listed => (List.mem_cons.1 listed).elim unknown.1 new

theorem place (h : Settled ids before after) (id : String) {x y : Float} (hx : x.isFinite = true)
    (hy : y.isFinite = true) : Settled (id :: ids) before (placeLast id x y after) := by
  induction h with
  | nil => exact .nil
  | @placed n m before after listed last same placed rest ih =>
    rw [placeLast]
    split
    · exact .placed (List.mem_cons_of_mem _ listed) last same placed ih
    · rename_i later
      have unknown := rest.add_unknown (show hasId id before = false by rw [← rest.hasId_eq]; simpa using later)
      split
      · have here : isPlaced (m.setPosition x y) = true := by simp [isPlaced, GraphNode.setPosition, hx, hy]
        exact .placed (List.mem_cons_of_mem _ listed) last same here unknown
      · exact .placed (List.mem_cons_of_mem _ listed) last same placed unknown
  | @left n before after free rest ih =>
    rw [placeLast]
    split
    · rename_i later
      refine .left ?_ ih
      obtain rfl | other := eq_or_ne n.id id
      · exact .inr (by rwa [← rest.hasId_eq])
      · exact free.imp_left fun new listed => (List.mem_cons.1 listed).elim other new
    · rename_i later
      have none : hasId id before = false := by rw [← rest.hasId_eq]; simpa using later
      have unknown := rest.add_unknown none
      split
      · rename_i named
        obtain rfl : n.id = id := by simpa using named
        exact .placed (by simp) none rfl (by simp [isPlaced, GraphNode.setPosition, hx, hy]) unknown
      · rename_i other
        refine .left (free.imp_left fun new listed => ?_) unknown
        exact (List.mem_cons.1 listed).elim (by simpa using other) new

theorem placed_iff (h : Settled ids before after) :
    (∀ n ∈ after, isPlaced n = true) ↔ ∀ n ∈ leftAlone ids.contains before, isPlaced n = true := by
  induction h with
  | nil => simp [leftAlone]
  | placed listed last _ placed _ ih => simp [leftAlone, listed, last, placed, ih]
  | @left n before after free _ ih =>
    have kept : ¬(n.id ∈ ids ∧ hasId n.id before = false) := by
      rintro ⟨listed, last⟩
      exact free.elim (· listed) (by simp [last])
    rw [leftAlone, if_neg (by simpa using kept)]
    simp [ih]

end Settled

theorem leftAlone_congr {touched touched' : String → Bool} {nodes : List GraphNode}
    (h : ∀ n ∈ nodes, touched n.id = touched' n.id) : leftAlone touched nodes = leftAlone touched' nodes := by
  induction nodes with
  | nil => rfl
  | cons n rest ih =>
    simp only [leftAlone, h n (by simp), ih fun m hm => h m (List.mem_cons_of_mem _ hm)]

/-- Placing nodes one after the other by their ids settles these. -/
theorem Settled.foldl {ids : List String} {before : List GraphNode} {d : GraphData} (h : Settled ids before d.nodes)
    (moved : List GraphNode) (placed : ∀ n ∈ moved, isPlaced n = true) :
    Settled ((moved.map GraphNode.id).reverse ++ ids) before
      (moved.foldl (fun d n => Strategy.placeById d n.id n.x n.y) d).nodes := by
  induction moved generalizing ids d with
  | nil => exact h
  | cons n moved ih =>
    have hn := placed n (by simp)
    simp only [isPlaced, Bool.and_eq_true] at hn
    rw [List.map_cons, List.reverse_cons, List.append_assoc]
    refine ih ?_ fun m hm => placed m (List.mem_cons_of_mem _ hm)
    rw [placeById_nodes]
    exact h.place n.id hn.1 hn.2

/-! ### What is left as it is -/

/-- A part of a node that depends neither on where it is nor on how it moves. -/
def GraphNode.IsLasting {β : Type} (part : GraphNode → β) : Prop :=
  ∀ (n : GraphNode) x y vx vy positioned, part { n with x, y, vx, vy, positioned } = part n

section
variable {β : Type} {part : GraphNode → β}

theorem map_placeLast (same : GraphNode.IsLasting part) (id : String) (x y : Float) (nodes : List GraphNode) :
    (placeLast id x y nodes).map part = nodes.map part := by
  induction nodes with
  | nil => rfl
  | cons n rest ih =>
    rw [placeLast]
    split
    · rw [List.map_cons, ih, List.map_cons]
    · split
      · rw [List.map_cons, List.map_cons]
        exact congrArg (· :: rest.map part) (same n x y n.vx n.vy true)
      · rfl

namespace Force

theorem map_placeAll (same : GraphNode.IsLasting part) (o : LayoutOptions) (nodes : List GraphNode)
    (g : Random.Generator) : (placeAll o nodes g).1.map part = nodes.map part := by
  induction nodes generalizing g with
  | nil => rfl
  | cons n rest ih =>
    have first : part (placeOne o n g).1 = part n := by
      unfold placeOne
      split
      · exact same n ..
      · split <;> exact same n ..
    simp only [placeAll, List.map_cons, first, ih]

theorem length_forces (o : LayoutOptions) (bodies : List Body) (table : Array Body) (i : Nat) (rest : List Body)
    (near : List (List Nat)) : (forces o bodies table i rest near).length = min rest.length near.length := by
  induction rest generalizing i near with
  | nil => simp [forces]
  | cons b rest ih =>
    cases near with
    | nil => simp [forces]
    | cons a near => simp [forces, ih, Nat.succ_min_succ]

theorem length_steps (o : LayoutOptions) {adjacent : List (List Nat)} (left taken : Nat) {bodies : List Body}
    (h : adjacent.length = bodies.length) : (steps o adjacent left taken bodies).1.length = bodies.length := by
  have moved {bodies : List Body} (h : adjacent.length = bodies.length) :
      (step o adjacent bodies).1.length = bodies.length := by
    simp [step, length_forces, h]
  induction left generalizing taken bodies with
  | zero => rfl
  | succ left ih =>
    simp only [steps]
    split
    · exact moved h
    · rw [ih _ (h.trans (moved h).symm), moved h]

theorem map_settle (same : GraphNode.IsLasting part) {nodes : List GraphNode} {bodies : List Body}
    (h : bodies.length = nodes.length) : (nodes.zipWith settle bodies).map part = nodes.map part := by
  induction nodes generalizing bodies with
  | nil => simp
  | cons n rest ih =>
    cases bodies with
    | nil => simp at h
    | cons b bodies =>
      rw [List.zipWith_cons_cons, List.map_cons, List.map_cons, ih (Nat.succ.inj h)]
      exact congrArg (· :: rest.map part) (same n b.x b.y b.vx b.vy n.positioned)

theorem map_simulate (same : GraphNode.IsLasting part) (d : GraphData) (o : LayoutOptions) (iterations : Nat)
    (g : Random.Generator) : (simulate d o iterations g).nodes.map part = d.nodes.map part := by
  have placed := map_placeAll same o d.nodes g
  have length : (placeAll o d.nodes g).1.length = d.nodes.length := by simpa using congrArg List.length placed
  unfold simulate
  simp only
  split
  · exact placed
  · have count : (steps o (adjacency d) iterations 0
        ((placeAll o d.nodes g).1.map Body.ofNode)).1.length = (placeAll o d.nodes g).1.length := by
      rw [length_steps o iterations 0 (by simp [adjacency, length]), List.length_map]
    rw [map_settle same count, placed]

theorem simulate_ids (d : GraphData) (o : LayoutOptions) (iterations : Nat) (g : Random.Generator) :
    (simulate d o iterations g).nodes.map GraphNode.id = d.nodes.map GraphNode.id :=
  map_simulate (fun _ _ _ _ _ _ => rfl) d o iterations g

end Force

end

end CodeAtlas
