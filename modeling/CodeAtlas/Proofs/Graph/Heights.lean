import CodeAtlas.Proofs.Graph.Parts
import Mathlib.Data.Fintype.Card
import Mathlib.Logic.Relation
import Mathlib.Order.ConditionallyCompleteLattice.Finset

/-! The longest paths of a graph.

A node is as high as the longest path to it has edges. So it is one higher than the
highest of those that lead to it (`height_succ`), and there are no more heights than nodes
(`le_length_of_heights`). A node that a cycle reaches has no height (`Height.not_circling`):
there is always a longer path to it. These are just the nodes from which one can go back
along the edges for ever (`circling_of_forall_exists`). -/
namespace CodeAtlas
open Relation

namespace GraphData

variable {d : GraphData} {u v : Nat} {k : Nat}

/-- A place has an id that no later place has. -/
def LastAt (d : GraphData) (id : String) (i : Nat) : Prop :=
  d.ids[i]? = some id ∧ ∀ j > i, d.ids[j]? ≠ some id

/-- An edge leads from one node to another. Its ends are the last nodes of their ids. -/
def Feeds (d : GraphData) (u v : Nat) : Prop :=
  u ≠ v ∧ ∃ e ∈ d.edges, d.LastAt e.source u ∧ d.LastAt e.target v

/-- A path of so many edges ends at a node. -/
inductive PathTo (d : GraphData) : Nat → Nat → Prop
  | here (v : Nat) : PathTo d v 0
  | step {u v length : Nat} (before : PathTo d u length) (last : d.Feeds u v) : PathTo d v (length + 1)

/-- The longest path to a node has so many edges. -/
def Height (d : GraphData) (v height : Nat) : Prop := IsGreatest {length | d.PathTo v length} height

/-- A cycle reaches a node: the node is on it, or further on. -/
def Circling (d : GraphData) (v : Nat) : Prop := ∃ u, TransGen d.Feeds u u ∧ ReflTransGen d.Feeds u v

theorem LastAt.lt {id : String} (h : d.LastAt id v) : v < d.nodes.length := by
  obtain ⟨hlt, -⟩ := List.getElem?_eq_some_iff.mp h.1
  simpa [ids] using hlt

theorem Feeds.source_lt (h : d.Feeds u v) : u < d.nodes.length := by
  obtain ⟨-, e, -, hsource, -⟩ := h
  exact hsource.lt

theorem Feeds.target_lt (h : d.Feeds u v) : v < d.nodes.length := by
  obtain ⟨-, e, -, -, htarget⟩ := h
  exact htarget.lt

/-! ### Heights -/

theorem pathTo_succ : d.PathTo v (k + 1) ↔ ∃ u, d.Feeds u v ∧ d.PathTo u k := by
  constructor
  · rintro (_ | ⟨hbefore, hlast⟩)
    exact ⟨_, hlast, hbefore⟩
  · rintro ⟨u, hlast, hbefore⟩
    exact .step hbefore hlast

theorem exists_height (h : ∀ length, d.PathTo v length → length ≤ k) : ∃ j ≤ k, d.Height v j := by
  have hgreatest : d.Height v (sSup {length | d.PathTo v length}) :=
    ⟨Nat.sSup_mem ⟨0, .here v⟩ ⟨k, h⟩, fun _ hpath => le_csSup ⟨k, h⟩ hpath⟩
  exact ⟨_, h _ hgreatest.1, hgreatest⟩

theorem Height.unique {j : Nat} (h : d.Height v k) (h' : d.Height v j) : k = j := IsGreatest.unique h h'

/-- What leads to a node is less high. -/
theorem Height.lt_of_feeds (h : d.Height v k) (hlast : d.Feeds u v) : ∃ j < k, d.Height u j := by
  have hbound (length : Nat) (hpath : d.PathTo u length) : length + 1 ≤ k := h.2 (PathTo.step hpath hlast)
  have hpos : 0 < k := hbound 0 (.here u)
  obtain ⟨j, hj, hheight⟩ := exists_height (k := k - 1) fun length hpath => by have := hbound length hpath; omega
  exact ⟨j, by omega, hheight⟩

/-- Where all that leads to a node has a height, so has the node. -/
theorem exists_height_of_feeds (h : ∀ u, d.Feeds u v → ∃ j < k, d.Height u j) : ∃ j ≤ k, d.Height v j := by
  refine exists_height fun length hpath => ?_
  cases length with
  | zero => exact Nat.zero_le k
  | succ length =>
    obtain ⟨u, hlast, hbefore⟩ := pathTo_succ.mp hpath
    obtain ⟨j, hj, hheight⟩ := h u hlast
    exact Nat.lt_of_le_of_lt (hheight.2 hbefore) hj

theorem height_zero : d.Height v 0 ↔ ∀ u, ¬d.Feeds u v := by
  constructor
  · intro h u hlast
    obtain ⟨j, hj, -⟩ := h.lt_of_feeds hlast
    exact absurd hj (Nat.not_lt_zero j)
  · intro h
    obtain ⟨j, hj, hheight⟩ := exists_height_of_feeds (k := 0) fun u hlast => absurd hlast (h u)
    rwa [Nat.le_zero.mp hj] at hheight

theorem height_succ :
    d.Height v (k + 1) ↔ (∃ u, d.Feeds u v ∧ d.Height u k) ∧ ∀ u, d.Feeds u v → ∃ j < k + 1, d.Height u j := by
  constructor
  · intro h
    obtain ⟨u, hlast, hbefore⟩ := pathTo_succ.mp h.1
    obtain ⟨j, hj, hheight⟩ := h.lt_of_feeds hlast
    obtain rfl : j = k := Nat.le_antisymm (Nat.le_of_lt_succ hj) (hheight.2 hbefore)
    exact ⟨⟨u, hlast, hheight⟩, fun u hlast => h.lt_of_feeds hlast⟩
  · rintro ⟨⟨u, hlast, hheight⟩, hall⟩
    obtain ⟨j, hj, hheight'⟩ := exists_height_of_feeds hall
    rwa [Nat.le_antisymm hj (hheight'.2 (PathTo.step hheight.1 hlast))] at hheight'

/-- There are no more heights than nodes. -/
theorem le_length_of_heights (h : ∀ j < k, ∃ v < d.nodes.length, d.Height v j) : k ≤ d.nodes.length := by
  choose node hlt hheight using fun j : Fin k => h j j.isLt
  have hinj : Function.Injective fun j => (⟨node j, hlt j⟩ : Fin d.nodes.length) := by
    intro i j hij
    have hnode : node i = node j := congrArg Fin.val hij
    exact Fin.ext ((hheight i).unique (hnode ▸ hheight j))
  simpa using Fintype.card_le_of_injective _ hinj

/-! ### Cycles -/

theorem exists_pathTo_of_reflTransGen (hpath : d.PathTo u k) (h : ReflTransGen d.Feeds u v) :
    ∃ length ≥ k, d.PathTo v length := by
  induction h with
  | refl => exact ⟨k, le_rfl, hpath⟩
  | tail _ hlast ih =>
    obtain ⟨length, hle, hbefore⟩ := ih
    exact ⟨length + 1, Nat.le_succ_of_le hle, .step hbefore hlast⟩

/-- On a cycle there is always a longer path. -/
theorem exists_pathTo_of_cycle (h : TransGen d.Feeds u u) (k : Nat) : ∃ length ≥ k, d.PathTo u length := by
  induction k with
  | zero => exact ⟨0, le_rfl, .here u⟩
  | succ k ih =>
    obtain ⟨length, hle, hpath⟩ := ih
    obtain ⟨w, hfirst, hrest⟩ := TransGen.head'_iff.mp h
    obtain ⟨longer, hle', hpath'⟩ := exists_pathTo_of_reflTransGen (.step hpath hfirst) hrest
    exact ⟨longer, by omega, hpath'⟩

theorem Height.not_circling (h : d.Height v k) : ¬d.Circling v := by
  rintro ⟨u, hcycle, hreach⟩
  obtain ⟨length, hle, hpath⟩ := exists_pathTo_of_cycle hcycle (k + 1)
  obtain ⟨longer, hle', hpath'⟩ := exists_pathTo_of_reflTransGen hpath hreach
  have hbound : longer ≤ k := h.2 hpath'
  omega

/-- A node is on or behind a cycle if one can always go one edge further back. The nodes
that no cycle reaches are finitely many and none is before itself, so the induction is on
what is before them. -/
theorem circling_of_forall_exists {P : Nat → Prop} (h : ∀ v, P v → ∃ u, P u ∧ d.Feeds u v) (hv : P v) :
    d.Circling v := by
  by_contra hfree
  let Before (a b : {v : Fin d.nodes.length // ¬d.Circling v}) : Prop := TransGen d.Feeds a.1 b.1
  have : IsTrans _ Before := ⟨fun _ _ _ => TransGen.trans⟩
  have : Std.Irrefl Before := ⟨fun a hcycle => a.2 ⟨a.1, hcycle, .refl⟩⟩
  have hnone (a : {v : Fin d.nodes.length // ¬d.Circling v}) : ¬P a.1 := by
    induction a using (Finite.wellFounded_of_trans_of_irrefl Before).induction with
    | _ a ih =>
      intro ha
      obtain ⟨u, hu, hlast⟩ := h _ ha
      have hufree : ¬d.Circling u := fun ⟨w, hcycle, hreach⟩ => a.2 ⟨w, hcycle, hreach.tail hlast⟩
      exact ih ⟨⟨u, hlast.source_lt⟩, hufree⟩ (.single hlast) hu
  obtain ⟨u, -, hlast⟩ := h v hv
  exact hnone ⟨⟨v, hlast.target_lt⟩, hfree⟩ hv

end GraphData

end CodeAtlas
