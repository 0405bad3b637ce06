import CodeAtlas.Graph.Multigraph
import Mathlib.Data.List.Nodup
import Mathlib.Data.List.Perm.Subperm
import Mathlib.Logic.Relation

/-! The connected components of a multigraph.

A search discovers what is on its stack, and with every node all that is around it and was
not discovered before; so from one node it discovers exactly the nodes joined to it
(`mem_discover_iff`). The nodes visited before a search are those joined to an earlier
node. They are joined to no new start, so a search that starts afresh finds none of them,
and there is one component for each node that is joined to no earlier one
(`components_eq`). -/
namespace CodeAtlas.Multigraph
open Relation

variable {g : Multigraph} {u v w : Nat} {undiscovered stack : List Nat}

/-- An edge has its ends here, in either direction. -/
def Adjacent (g : Multigraph) (v w : Nat) : Prop :=
  ∃ e ∈ g.edges, (e.source = v ∧ e.target = w) ∨ (e.source = w ∧ e.target = v)

/-- Edges are between nodes there are. -/
def Bounded (g : Multigraph) : Prop := ∀ e ∈ g.edges, e.source < g.nodeCount ∧ e.target < g.nodeCount

/-- There is a path of edges, each taken in either direction. -/
abbrev Joined (g : Multigraph) : Nat → Nat → Prop := ReflTransGen g.Adjacent

theorem Adjacent.symm (h : g.Adjacent v w) : g.Adjacent w v := by
  obtain ⟨e, he, hends⟩ := h
  exact ⟨e, he, hends.symm⟩

theorem Joined.symm (h : g.Joined v w) : g.Joined w v := by
  induction h with
  | refl => exact .refl
  | tail _ hadj ih => exact .head hadj.symm ih

theorem Bounded.lt_of_adjacent (h : g.Bounded) (hvw : g.Adjacent v w) : w < g.nodeCount := by
  obtain ⟨e, he, ⟨-, rfl⟩ | ⟨rfl, -⟩⟩ := hvw
  · exact (h e he).2
  · exact (h e he).1

theorem Bounded.lt_of_joined (h : g.Bounded) (hv : v < g.nodeCount) (hvw : g.Joined v w) : w < g.nodeCount := by
  cases hvw with
  | refl => exact hv
  | tail _ hadj => exact h.lt_of_adjacent hadj

theorem mem_across {near far : NumberedEdge → Nat} :
    w ∈ g.across near far v ↔ ∃ e ∈ g.edges, near e = v ∧ far e = w := by
  simp [across, and_assoc]

theorem mem_around : w ∈ g.around v ↔ g.Adjacent v w := by
  rw [around, List.mem_append, List.mem_filter, targets, sources, mem_across, mem_across, bne_iff_ne]
  constructor
  · rintro (⟨e, he, hends⟩ | ⟨⟨e, he, htarget, hsource⟩, -⟩)
    · exact ⟨e, he, .inl hends⟩
    · exact ⟨e, he, .inr ⟨hsource, htarget⟩⟩
  · rintro ⟨e, he, hends | ⟨hsource, htarget⟩⟩
    · exact .inl ⟨e, he, hends⟩
    · by_cases hloop : w = v
      · exact .inl ⟨e, he, hsource.trans hloop, htarget.trans hloop.symm⟩
      · exact .inr ⟨⟨e, he, htarget, hsource⟩, hloop⟩

/-! ### One search -/

theorem discover_nil (undiscovered : List Nat) : g.discover undiscovered [] = [] := by rw [discover]

theorem discover_cons_of_mem (h : v ∈ undiscovered) (rest : List Nat) :
    g.discover undiscovered (v :: rest) = v :: g.discover (undiscovered.erase v)
      (((g.around v).filter fun w => (undiscovered.erase v).contains w).reverse ++ rest) := by
  rw [discover, dif_pos h]

theorem discover_cons_of_not_mem (h : v ∉ undiscovered) (rest : List Nat) :
    g.discover undiscovered (v :: rest) = g.discover undiscovered rest := by
  rw [discover, dif_neg h]

/-- Nothing is discovered twice. -/
theorem discover_subperm (g : Multigraph) (undiscovered stack : List Nat) :
    (g.discover undiscovered stack).Subperm undiscovered := by
  induction undiscovered, stack using discover.induct g with
  | case1 => rw [discover_nil]; exact List.nil_subperm
  | case2 undiscovered v rest known left next ih =>
    rw [discover_cons_of_mem known]
    exact ((List.subperm_cons v).mpr ih).trans (List.perm_cons_erase known).symm.subperm
  | case3 undiscovered v rest unknown ih => rwa [discover_cons_of_not_mem unknown]

theorem nodup_discover (h : undiscovered.Nodup) (stack : List Nat) : (g.discover undiscovered stack).Nodup := by
  obtain ⟨found, hperm, hsub⟩ := g.discover_subperm undiscovered stack
  exact hperm.nodup_iff.mp (hsub.nodup h)

/-- What is discovered is joined to what was on the stack. -/
theorem joined_of_mem_discover (h : w ∈ g.discover undiscovered stack) : ∃ v ∈ stack, g.Joined v w := by
  induction undiscovered, stack using discover.induct g with
  | case1 =>
    rw [discover_nil] at h
    cases h
  | case2 undiscovered v rest known left next ih =>
    rw [discover_cons_of_mem known] at h
    obtain rfl | h := List.mem_cons.mp h
    · exact ⟨w, List.mem_cons_self, .refl⟩
    · obtain ⟨u, hu, hjoined⟩ := ih h
      rcases List.mem_append.mp hu with hu | hu
      · have hadj := mem_around.mp (List.mem_filter.mp (List.mem_reverse.mp hu)).1
        exact ⟨v, List.mem_cons_self, .head hadj hjoined⟩
      · exact ⟨u, List.mem_cons_of_mem v hu, hjoined⟩
  | case3 undiscovered v rest unknown ih =>
    rw [discover_cons_of_not_mem unknown] at h
    obtain ⟨u, hu, hjoined⟩ := ih h
    exact ⟨u, List.mem_cons_of_mem v hu, hjoined⟩

theorem mem_discover_of_mem_stack (hstack : w ∈ stack) (h : w ∈ undiscovered) : w ∈ g.discover undiscovered stack := by
  induction undiscovered, stack using discover.induct g with
  | case1 => cases hstack
  | case2 undiscovered v rest known left next ih =>
    rw [discover_cons_of_mem known]
    by_cases hw : w = v
    · exact hw ▸ List.mem_cons_self
    · refine List.mem_cons_of_mem v (ih (List.mem_append_right _ ?_) ((List.mem_erase_of_ne hw).mpr h))
      exact (List.mem_cons.mp hstack).resolve_left hw
  | case3 undiscovered v rest unknown ih =>
    rw [discover_cons_of_not_mem unknown]
    refine ih ((List.mem_cons.mp hstack).resolve_left ?_) h
    rintro rfl
    exact unknown h

/-- Around what is discovered nothing remains undiscovered. -/
theorem mem_discover_of_adjacent (hv : v ∈ g.discover undiscovered stack) (hvw : g.Adjacent v w)
    (h : w ∈ undiscovered) : w ∈ g.discover undiscovered stack := by
  induction undiscovered, stack using discover.induct g with
  | case1 =>
    rw [discover_nil] at hv
    cases hv
  | case2 undiscovered u rest known left next ih =>
    rw [discover_cons_of_mem known] at hv ⊢
    by_cases hw : w = u
    · exact hw ▸ List.mem_cons_self
    have hleft : w ∈ undiscovered.erase u := (List.mem_erase_of_ne hw).mpr h
    refine List.mem_cons_of_mem u ?_
    obtain rfl | hv := List.mem_cons.mp hv
    · refine mem_discover_of_mem_stack (List.mem_append_left _ (List.mem_reverse.mpr ?_)) hleft
      exact List.mem_filter.mpr ⟨mem_around.mpr hvw, List.contains_iff_mem.mpr hleft⟩
    · exact ih hv hleft
  | case3 undiscovered u rest unknown ih =>
    rw [discover_cons_of_not_mem unknown] at hv ⊢
    exact ih hv h

/-- What a search of the whole graph from one node finds. -/
def reach (g : Multigraph) (v : Nat) : List Nat := g.discover (List.range g.nodeCount) [v]

theorem nodup_reach (g : Multigraph) (v : Nat) : (g.reach v).Nodup := nodup_discover List.nodup_range [v]

theorem mem_reach_iff (h : g.Bounded) (hv : v < g.nodeCount) : w ∈ g.reach v ↔ g.Joined v w := by
  constructor
  · intro hw
    obtain ⟨u, hu, hjoined⟩ := joined_of_mem_discover hw
    rwa [List.mem_singleton.mp hu] at hjoined
  · intro hjoined
    induction hjoined with
    | refl => exact mem_discover_of_mem_stack List.mem_cons_self (List.mem_range.mpr hv)
    | tail _ hadj ih => exact mem_discover_of_adjacent ih hadj (List.mem_range.mpr (h.lt_of_adjacent hadj))

theorem reach_eq_cons (hv : v < g.nodeCount) : ∃ rest, g.reach v = v :: rest :=
  ⟨_, discover_cons_of_mem (List.mem_range.mpr hv) []⟩

/-! ### All searches -/

open Classical in
/-- The nodes that are joined to no earlier node. -/
noncomputable def earliest (g : Multigraph) (starts : List Nat) : List Nat :=
  starts.filter fun v => ∀ u < v, ¬g.Joined u v

/-- The nodes that are joined to one of the first so many have been visited, and no others. -/
def VisitedFrom (g : Multigraph) (k : Nat) (visited : List Nat) : Prop :=
  ∀ v, v ∈ visited ↔ v < g.nodeCount ∧ ∃ u < k, g.Joined u v

namespace VisitedFrom

variable {k : Nat} {visited : List Nat}

theorem not_mem_iff (hvisited : g.VisitedFrom k visited) (hk : k < g.nodeCount) :
    k ∉ visited ↔ ∀ u < k, ¬g.Joined u k := by
  rw [hvisited]
  simp [hk]

/-- The nodes around a start that was visited have been visited as well. -/
theorem skip (hvisited : g.VisitedFrom k visited) (hmem : k ∈ visited) : g.VisitedFrom (k + 1) visited := by
  refine fun v => (hvisited v).trans (and_congr_right fun _ => ?_)
  obtain ⟨-, u, hu, huk⟩ := (hvisited k).mp hmem
  refine ⟨fun ⟨u, hu, hjoined⟩ => ⟨u, by omega, hjoined⟩, fun ⟨u', hu', hjoined⟩ => ?_⟩
  obtain hu' | rfl := Nat.lt_succ_iff_lt_or_eq.mp hu'
  · exact ⟨u', hu', hjoined⟩
  · exact ⟨u, hu, huk.trans hjoined⟩

/-- A search from a new start finds nothing that was visited: that is joined to an earlier
node, and what is found to this one. -/
theorem filter_reach (hvisited : g.VisitedFrom k visited) (h : g.Bounded) (hk : k < g.nodeCount) (hnew : k ∉ visited) :
    ((g.reach k).filter fun v => !visited.contains v) = g.reach k := by
  refine List.filter_eq_self.mpr fun v hv => ?_
  have hkv : g.Joined k v := (mem_reach_iff h hk).mp hv
  simp only [Bool.not_eq_true', List.contains_eq_mem, decide_eq_false_iff_not]
  intro hvis
  obtain ⟨-, u, hu, huv⟩ := (hvisited v).mp hvis
  exact (hvisited.not_mem_iff hk).mp hnew u hu (huv.trans hkv.symm)

theorem search (hvisited : g.VisitedFrom k visited) (h : g.Bounded) (hk : k < g.nodeCount) :
    g.VisitedFrom (k + 1) (visited ++ g.reach k) := by
  intro v
  rw [List.mem_append, hvisited, mem_reach_iff h hk]
  constructor
  · rintro (⟨hv, u, hu, hjoined⟩ | hjoined)
    · exact ⟨hv, u, by omega, hjoined⟩
    · exact ⟨h.lt_of_joined hk hjoined, k, by omega, hjoined⟩
  · rintro ⟨hv, u, hu, hjoined⟩
    obtain hu | rfl := Nat.lt_succ_iff_lt_or_eq.mp hu
    · exact .inl ⟨hv, u, hu, hjoined⟩
    · exact .inr hjoined

end VisitedFrom

/-- The induction is on the starts that are left; the nodes visited by then are those
joined to an earlier start. -/
theorem componentsFrom_eq (h : g.Bounded) (m : Nat) {k : Nat} (hk : k + m = g.nodeCount) {visited : List Nat}
    (hvisited : g.VisitedFrom k visited) :
    g.componentsFrom visited (List.range' k m) = (g.earliest (List.range' k m)).map g.reach := by
  induction m generalizing k visited with
  | zero => rfl
  | succ m ih =>
    have hlt : k < g.nodeCount := by omega
    have hearliest := hvisited.not_mem_iff hlt
    rw [List.range'_succ, componentsFrom, earliest, List.filter_cons]
    by_cases hmem : k ∈ visited
    · rw [if_pos (List.contains_iff_mem.mpr hmem), if_neg (by simpa using mt hearliest.mpr (not_not_intro hmem))]
      exact ih (by omega) (hvisited.skip hmem)
    · have hall := hvisited.filter_reach h hlt hmem
      rw [if_neg (by simpa using hmem), if_pos (by simpa using hearliest.mp hmem), List.map_cons]
      refine congrArg₂ List.cons hall ?_
      show g.componentsFrom (visited ++ (g.reach k).filter fun v => !visited.contains v) _ = _
      rw [hall]
      exact ih (by omega) (hvisited.search h hlt)

/-- There is one component for each node that is joined to no earlier one: what a search
from there finds. -/
theorem components_eq (h : g.Bounded) :
    g.components = (g.earliest (List.range g.nodeCount)).map g.reach := by
  rw [components, List.range_eq_range']
  exact componentsFrom_eq h g.nodeCount (Nat.zero_add _) fun v => by simp

end CodeAtlas.Multigraph
