import CodeAtlas.Layout.Engine
import CodeAtlas.Proofs.Graph.Heights
import CodeAtlas.Proofs.Layout.Placement
import Mathlib.Data.List.Count
import Mathlib.Data.List.Perm.Basic
import Mathlib.Data.Set.Card
import Mathlib.Order.Interval.Finset.Nat

/-! The levels of a graph are the heights of its nodes.

Each level takes away the links out of its nodes, and the nodes whose last link goes come
next. What that makes of the links is told for any targets (`Released`), and for a whole
level (`Assigned`): a node waits for one link less for every link into it from the level, so
there is always one left to take away. After some levels the nodes below that height have
their heights as levels, those of the height come next, and the others wait for the links
between them (`Reached`, kept by `Reached.round`). In the end none is next, and those left
have always one before them that is left too: a cycle reaches them. -/
namespace CodeAtlas
open Relation

/-! ### Links -/

theorem indexOf?_eq_some_iff {d : GraphData} {id : String} {i : Nat} : d.indexOf? id = some i ↔ d.LastAt id i := by
  rw [GraphData.indexOf?, GraphData.LastAt, GraphData.ids]
  induction d.nodes generalizing i with
  | nil => simp [GraphData.indexOf?.go]
  | cons n rest ih =>
    rw [indexOf?_cons, List.map_cons]
    cases i with
    | zero =>
      have hnone : (∀ j > 0, (n.id :: rest.map GraphNode.id)[j]? ≠ some id) ↔
          GraphData.indexOf?.go id 0 none rest = none := by
        rw [← Option.not_isSome_iff_eq_none, isSome_indexOf?, hasId, List.any_eq_true]
        constructor
        · rintro h ⟨m, hm, heq⟩
          obtain ⟨j, hj⟩ := List.mem_iff_getElem?.mp (List.mem_map_of_mem (f := GraphNode.id) hm)
          exact h (j + 1) (Nat.succ_pos j) (by rwa [List.getElem?_cons_succ, ← eq_of_beq heq])
        · rintro h (_ | j) hj heq
          · exact absurd hj (Nat.lt_irrefl 0)
          · obtain ⟨m, hm, hid⟩ := List.mem_map.mp (List.mem_of_getElem? heq)
            exact h ⟨m, hm, beq_iff_eq.mpr hid⟩
      rw [hnone, List.getElem?_cons_zero]
      cases GraphData.indexOf?.go id 0 none rest <;> simp
    | succ i =>
      have hshift : (∀ j > i + 1, (n.id :: rest.map GraphNode.id)[j]? ≠ some id) ↔
          ∀ j > i, (rest.map GraphNode.id)[j]? ≠ some id := by
        constructor
        · exact fun h j hj => h (j + 1) (Nat.succ_lt_succ hj)
        · rintro h (_ | j) hj
          · exact absurd hj (Nat.not_lt_zero _)
          · exact h j (Nat.lt_of_succ_lt_succ hj)
      rw [hshift, List.getElem?_cons_succ, ← ih]
      cases GraphData.indexOf?.go id 0 none rest <;> cases n.id == id <;> simp

theorem mem_links {d : GraphData} {u v : Nat} : (u, v) ∈ Force.links d ↔ d.Feeds u v := by
  rw [Force.links, List.mem_filterMap, GraphData.Feeds, ← exists_and_left]
  refine exists_congr fun e => ?_
  rw [and_left_comm, ← indexOf?_eq_some_iff, ← indexOf?_eq_some_iff]
  refine and_congr_right fun _ => ?_
  cases d.indexOf? e.source with
  | none => simp
  | some i =>
    cases d.indexOf? e.target with
    | none => simp
    | some j => by_cases hloop : i = j <;> grind

namespace Strategy

variable {s s' s'' : Levelling × List Nat} {links : List (Nat × Nat)} {v : Nat}

/-! ### Taking links away -/

/-- The links into a node from nodes without a level. -/
def Levelling.waitingAt (s : Levelling) (v : Nat) : Nat := s.waiting.getD v 0

/-- The level of a node, if it has one. -/
def Levelling.levelAt (s : Levelling) (v : Nat) : Option Nat := s.level.getD v none

/-- What taking one link away into each of some targets makes of the links and of the
nodes that are next. -/
structure Released (targets : List Nat) (s s' : Levelling × List Nat) : Prop where
  waiting : ∀ v, s'.1.waitingAt v + targets.count v = s.1.waitingAt v
  next : ∀ v, v ∈ s'.2 ↔ v ∈ s.2 ∨ v ∈ targets ∧ s'.1.waitingAt v = 0
  nodup : s.2.Nodup → (∀ v ∈ s.2, s.1.waitingAt v = 0) → s'.2.Nodup

namespace Released

variable {targets targets' : List Nat}

theorem refl (s : Levelling × List Nat) : Released [] s s := ⟨fun _ => rfl, by simp, fun h _ => h⟩

theorem trans (h : Released targets s s') (h' : Released targets' s' s'') : Released (targets ++ targets') s s'' where
  waiting v := by
    have := h.waiting v
    have := h'.waiting v
    rw [List.count_append]
    omega
  next v := by
    have hwaiting := h'.waiting v
    rw [h'.next, h.next, or_assoc, List.mem_append, or_and_right]
    refine or_congr_right ⟨?_, ?_⟩
    · rintro (⟨hmem, hzero⟩ | hmem)
      · exact .inl ⟨hmem, by omega⟩
      · exact .inr hmem
    · rintro (⟨hmem, hzero⟩ | hmem)
      · by_cases hmem' : v ∈ targets'
        · exact .inr ⟨hmem', hzero⟩
        · rw [List.count_eq_zero.mpr hmem'] at hwaiting
          exact .inl ⟨hmem, by omega⟩
      · exact .inr hmem
  nodup hnodup hzero := by
    refine h'.nodup (h.nodup hnodup hzero) fun v hv => ?_
    have hwaiting := h.waiting v
    rcases (h.next v).mp hv with hv | ⟨-, hv⟩
    · have := hzero v hv
      omega
    · exact hv

end Released

theorem getD_setIfInBounds {α : Type} {xs : Array α} {i : Nat} (h : i < xs.size) (x default : α) (j : Nat) :
    (xs.setIfInBounds i x).getD j default = if j = i then x else xs.getD j default := by
  rw [Array.getD_eq_getD_getElem?, Array.getElem?_setIfInBounds]
  by_cases hj : j = i
  · subst hj
    rw [if_pos rfl, if_pos h, if_pos rfl, Option.getD_some]
  · rw [if_neg (Ne.symm hj), if_neg hj, ← Array.getD_eq_getD_getElem?]

/-- A link that is there can be taken away. -/
theorem exists_release (h : 0 < s.1.waitingAt v) :
    ∃ s', release? s v = some s' ∧ s'.1.level = s.1.level ∧ Released [v] s s' := by
  obtain ⟨left, hsome⟩ : ∃ left, s.1.waiting[v]? = some (left + 1) := by
    rw [Levelling.waitingAt, Array.getD_eq_getD_getElem?] at h
    cases hv : s.1.waiting[v]? with
    | none => simp [hv] at h
    | some k => exact ⟨k - 1, congrArg some (by rw [hv, Option.getD_some] at h; omega)⟩
  have hat : s.1.waitingAt v = left + 1 := by
    rw [Levelling.waitingAt, Array.getD_eq_getD_getElem?, hsome, Option.getD_some]
  let s' : Levelling × List Nat :=
    ({ s.1 with waiting := s.1.waiting.setIfInBounds v left }, if left == 0 then v :: s.2 else s.2)
  have hwaiting (w : Nat) : s'.1.waitingAt w = if w = v then left else s.1.waitingAt w :=
    getD_setIfInBounds (Array.getElem?_eq_some_iff.mp hsome).1 left 0 w
  refine ⟨s', by rw [release?, hsome], rfl, ⟨fun w => ?_, fun w => ?_, fun hnodup hzero => ?_⟩⟩
  · rw [hwaiting, List.count_singleton]
    by_cases hw : w = v
    · simp [hw, hat]
    · simp [hw, Ne.symm hw]
  · rw [hwaiting, List.mem_singleton]
    by_cases hleft : left = 0 <;> by_cases hw : w = v <;> simp [s', hleft, hw]
  · have hv : v ∉ s.2 := fun hv => by rw [hzero v hv] at h; exact Nat.lt_irrefl 0 h
    show (if left == 0 then v :: s.2 else s.2).Nodup
    split
    · exact List.nodup_cons.mpr ⟨hv, hnodup⟩
    · exact hnodup

theorem exists_releaseAll {targets : List Nat} (h : ∀ v, targets.count v ≤ s.1.waitingAt v) :
    ∃ s', targets.foldlM release? s = some s' ∧ s'.1.level = s.1.level ∧ Released targets s s' := by
  induction targets generalizing s with
  | nil => exact ⟨s, rfl, rfl, .refl s⟩
  | cons v rest ih =>
    have hcount (w : Nat) : [v].count w + rest.count w ≤ s.1.waitingAt w := by
      rw [← List.count_append]
      exact h w
    have hpos : 0 < s.1.waitingAt v := by
      have := hcount v
      rw [List.count_singleton_self] at this
      omega
    obtain ⟨s₁, hstep, hlevel, hreleased⟩ := exists_release hpos
    obtain ⟨s', hrun, hlevel', hreleased'⟩ := ih (s := s₁) fun w => by
      have := hcount w
      have := hreleased.waiting w
      omega
    refine ⟨s', ?_, hlevel'.trans hlevel, hreleased.trans hreleased'⟩
    rw [List.foldlM_cons, hstep]
    exact hrun

/-! ### One level -/

/-- The nodes that some links lead to from one node. -/
def targetsOf (links : List (Nat × Nat)) (node : Nat) : List Nat := (links.filter (·.1 == node)).map (·.2)

theorem mem_targetsOf {w : Nat} : w ∈ targetsOf links v ↔ (v, w) ∈ links := by
  simp [targetsOf]

/-- What giving some nodes one level makes of the levels, the links and the nodes that are next. -/
structure Assigned (links : List (Nat × Nat)) (depth : Nat) (nodes : List Nat) (s s' : Levelling × List Nat) :
    Prop where
  released : Released (nodes.flatMap (targetsOf links)) s s'
  size : s'.1.level.size = s.1.level.size
  level : ∀ v, s'.1.levelAt v = if v ∈ nodes then some depth else s.1.levelAt v

theorem exists_assign (depth : Nat) (hv : v < s.1.level.size)
    (h : ∀ w, (targetsOf links v).count w ≤ s.1.waitingAt w) :
    ∃ s', assign? links depth s v = some s' ∧ Assigned links depth [v] s s' := by
  let s₁ : Levelling × List Nat := ({ s.1 with level := s.1.level.setIfInBounds v (some depth) }, s.2)
  obtain ⟨s', hrun, hlevel, hreleased⟩ := exists_releaseAll (s := s₁) h
  refine ⟨s', by rw [assign?, if_pos hv]; exact hrun, ?_, ?_, fun w => ?_⟩
  · rw [List.flatMap_singleton]
    exact ⟨hreleased.waiting, hreleased.next, hreleased.nodup⟩
  · rw [hlevel]
    exact Array.size_setIfInBounds
  · rw [Levelling.levelAt, hlevel]
    simp only [List.mem_singleton]
    exact getD_setIfInBounds hv (some depth) none w

theorem exists_assignAll (depth : Nat) (nodes : List Nat) (hnodes : ∀ v ∈ nodes, v < s.1.level.size)
    (h : ∀ w, (nodes.flatMap (targetsOf links)).count w ≤ s.1.waitingAt w) :
    ∃ s', nodes.foldlM (assign? links depth) s = some s' ∧ Assigned links depth nodes s s' := by
  induction nodes generalizing s with
  | nil => exact ⟨s, rfl, .refl s, rfl, by simp⟩
  | cons v rest ih =>
    have hcount (w : Nat) :
        (targetsOf links v).count w + (rest.flatMap (targetsOf links)).count w ≤ s.1.waitingAt w := by
      rw [← List.count_append]
      exact h w
    have hv : v < s.1.level.size := hnodes v List.mem_cons_self
    obtain ⟨s₁, hstep, hassigned⟩ := exists_assign depth hv fun w => Nat.le_of_add_right_le (hcount w)
    obtain ⟨s', hrun, hassigned'⟩ := ih (s := s₁)
      (fun w hw => hassigned.size ▸ hnodes w (List.mem_cons_of_mem v hw)) fun w => by
        have := hcount w
        have := hassigned.released.waiting w
        rw [List.flatMap_singleton] at this
        omega
    refine ⟨s', by rw [List.foldlM_cons, hstep]; exact hrun, ?_, hassigned'.size.trans hassigned.size, fun w => ?_⟩
    · have := hassigned.released.trans hassigned'.released
      rwa [← List.flatMap_append] at this
    · rw [hassigned'.level, hassigned.level]
      by_cases hw : w ∈ rest <;> by_cases hwv : w = v <;> simp [hw, hwv]

/-- Links out of different nodes are different links. -/
theorem count_flatMap_targetsOf {nodes : List Nat} (hnodup : nodes.Nodup) (v : Nat) :
    (nodes.flatMap (targetsOf links)).count v = links.countP fun l => l.2 == v && nodes.contains l.1 := by
  induction nodes with
  | nil => simp
  | cons u rest ih =>
    obtain ⟨hu, hrest⟩ := List.nodup_cons.mp hnodup
    rw [List.flatMap_cons, List.count_append, ih hrest, targetsOf, List.count, List.countP_map, List.countP_filter,
      List.countP_eq_countP_filter_add links (fun l => l.2 == v && (u :: rest).contains l.1) fun l => l.1 == u,
      List.countP_filter, List.countP_filter]
    refine congrArg₂ (· + ·) (List.countP_congr fun l _ => ?_) (List.countP_congr fun l _ => ?_)
    · by_cases hl : l.1 = u <;> simp [hl]
    · by_cases hl : l.1 = u <;> simp [hl, hu]

/-! ### Level after level -/

variable {d : GraphData} {depth : Nat} {current : List Nat} {t : Levelling}

/-- The nodes below some height have their heights as levels, and the others still wait
for the links between them. -/
structure Levelled (d : GraphData) (depth : Nat) (t : Levelling) : Prop where
  size : t.level.size = d.nodes.length
  level : ∀ v k, t.levelAt v = some k ↔ v < d.nodes.length ∧ k < depth ∧ d.Height v k
  waiting : ∀ v, t.waitingAt v = (Force.links d).countP fun l => l.2 == v && (t.levelAt l.1).isNone

/-- There are nodes of every smaller height, and those of the height come next. -/
structure Reached (d : GraphData) (depth : Nat) (current : List Nat) (t : Levelling) : Prop
    extends Levelled d depth t where
  used : ∀ k < depth, ∃ v < d.nodes.length, d.Height v k
  nodup : current.Nodup
  next : ∀ v, v ∈ current ↔ v < d.nodes.length ∧ d.Height v depth

/-- A node waits for nothing when all that leads to it has a level. -/
theorem Levelled.waitingAt_eq_zero (h : Levelled d depth t) :
    t.waitingAt v = 0 ↔ ∀ u, d.Feeds u v → ∃ k < depth, d.Height u k := by
  rw [h.waiting, List.countP_eq_zero]
  constructor
  · intro hnone u hlast
    obtain ⟨k, hk⟩ : ∃ k, t.levelAt u = some k := by
      simpa [Option.ne_none_iff_exists'] using hnone (u, v) (mem_links.mpr hlast)
    exact ⟨k, ((h.level u k).mp hk).2⟩
  · rintro hall ⟨u, w⟩ hl hwaits
    obtain ⟨rfl, hnone⟩ : w = v ∧ t.levelAt u = none := by simpa using hwaits
    have hlast : d.Feeds u w := mem_links.mp hl
    obtain ⟨k, hk, hheight⟩ := hall u hlast
    rw [(h.level u k).mpr ⟨hlast.source_lt, hk, hheight⟩] at hnone
    cases hnone

theorem Reached.used_succ (h : Reached d depth current t) (hcurrent : current ≠ []) :
    ∀ k < depth + 1, ∃ v < d.nodes.length, d.Height v k := by
  intro k hk
  obtain hk | rfl := Nat.lt_succ_iff_lt_or_eq.mp hk
  · exact h.used k hk
  · obtain ⟨v, hv⟩ := List.exists_mem_of_ne_nil current hcurrent
    exact ⟨v, (h.next v).mp hv⟩

theorem Reached.levelAt_eq_none (h : Reached d depth current t) (hv : v ∈ current) : t.levelAt v = none := by
  refine Option.eq_none_iff_forall_ne_some.mpr fun k hk => ?_
  obtain ⟨-, hlt, hheight⟩ := (h.level v k).mp hk
  exact Nat.ne_of_lt hlt (hheight.unique ((h.next v).mp hv).2)

/-- What a node waits for is the links out of the current nodes and those out of the nodes
that come later. -/
theorem Reached.waitingAt_eq (h : Reached d depth current t) (v : Nat) :
    t.waitingAt v = (current.flatMap (targetsOf (Force.links d))).count v +
      (Force.links d).countP fun l => l.2 == v && ((t.levelAt l.1).isNone && !current.contains l.1) := by
  rw [h.waiting, count_flatMap_targetsOf h.nodup,
    List.countP_eq_countP_filter_add _ _ fun l => current.contains l.1, List.countP_filter, List.countP_filter]
  refine congrArg₂ (· + ·) (List.countP_congr fun l _ => ?_) (List.countP_congr fun l _ => ?_)
  · by_cases hl : l.1 ∈ current
    · simp [hl, h.levelAt_eq_none hl]
    · simp [hl]
  · simp [and_assoc]

theorem Reached.mem_targets (h : Reached d depth current t) :
    v ∈ current.flatMap (targetsOf (Force.links d)) ↔ ∃ u, d.Feeds u v ∧ d.Height u depth := by
  rw [List.mem_flatMap]
  refine exists_congr fun u => ?_
  rw [mem_targetsOf, mem_links, h.next]
  constructor
  · exact fun ⟨⟨_, hheight⟩, hlast⟩ => ⟨hlast, hheight⟩
  · exact fun ⟨hlast, hheight⟩ => ⟨⟨hlast.source_lt, hheight⟩, hlast⟩

/-- The nodes below the next height have their levels when the current nodes have theirs. -/
theorem Reached.levelled_succ (h : Reached d depth current t)
    (hassigned : Assigned (Force.links d) depth current (t, []) s) : Levelled d (depth + 1) s.1 where
  size := hassigned.size.trans h.size
  level v k := by
    rw [hassigned.level]
    by_cases hv : v ∈ current
    · obtain ⟨hlt, hheight⟩ := (h.next v).mp hv
      rw [if_pos hv, Option.some_inj]
      constructor
      · rintro rfl
        exact ⟨hlt, Nat.lt_succ_self depth, hheight⟩
      · rintro ⟨-, -, hheight'⟩
        exact hheight.unique hheight'
    · rw [if_neg hv, h.level]
      refine and_congr_right fun hlt => and_congr_left fun hheight => ?_
      have hne : k ≠ depth := by
        rintro rfl
        exact hv ((h.next v).mpr ⟨hlt, hheight⟩)
      omega
  waiting v := by
    have hwaiting := hassigned.released.waiting v
    rw [h.waitingAt_eq, Nat.add_comm] at hwaiting
    rw [Nat.add_left_cancel hwaiting]
    refine List.countP_congr fun l _ => ?_
    rw [hassigned.level]
    by_cases hl : l.1 ∈ current <;> simp [hl]

/-- One level takes away the links out of the current nodes. What waits for no more of them
is one higher. -/
theorem Reached.round (h : Reached d depth current t) (hcurrent : current ≠ []) :
    ∃ s, current.foldlM (assign? (Force.links d) depth) (t, []) = some s ∧
      Reached d (depth + 1) s.2.reverse s.1 := by
  obtain ⟨s, hrun, hassigned⟩ := exists_assignAll (s := (t, [])) depth current
    (fun v hv => h.size ▸ ((h.next v).mp hv).1) fun v => by rw [h.waitingAt_eq]; exact Nat.le_add_right ..
  have hreleased := hassigned.released
  have hlevelled := h.levelled_succ hassigned
  refine ⟨s, hrun, hlevelled, h.used_succ hcurrent, ?_, fun v => ?_⟩
  · exact List.nodup_reverse.mpr (hreleased.nodup List.nodup_nil (by simp))
  · rw [List.mem_reverse, hreleased.next, or_iff_right List.not_mem_nil, hlevelled.waitingAt_eq_zero, h.mem_targets,
      ← GraphData.height_succ]
    refine (and_iff_right_of_imp fun hheight => ?_).symm
    obtain ⟨⟨u, hlast, -⟩, -⟩ := GraphData.height_succ.mp hheight
    exact hlast.target_lt

theorem exists_peel {allowed : Nat} (h : Reached d depth current t) (hallowed : d.nodes.length ≤ depth + allowed) :
    ∃ t' final, peel? (Force.links d) allowed depth current t = some (t', final) ∧ Reached d final [] t' := by
  induction allowed generalizing depth current t with
  | zero =>
    cases current with
    | nil => exact ⟨t, depth, rfl, h⟩
    | cons v rest =>
      have := GraphData.le_length_of_heights (h.used_succ (List.cons_ne_nil v rest))
      omega
  | succ allowed ih =>
    cases current with
    | nil => exact ⟨t, depth, rfl, h⟩
    | cons v rest =>
      obtain ⟨s, hrun, hnext⟩ := h.round (List.cons_ne_nil v rest)
      obtain ⟨t', final, hpeel, hreached⟩ := ih hnext (by omega)
      refine ⟨t', final, ?_, hreached⟩
      rw [peel?, hrun]
      · exact hpeel
      · exact List.cons_ne_nil v rest

/-! ### All levels -/

/-- At first no node has a level, and all links are there. -/
def Levelling.fresh (d : GraphData) : Levelling where
  waiting := ((List.range d.nodes.length).map fun i => (Force.links d).countP (·.2 == i)).toArray
  level := Array.replicate d.nodes.length none

/-- The levels of all nodes, with one further level for those that have none. -/
def Levelling.finish (t : Levelling) (final : Nat) : List Nat := t.level.toList.map fun l => l.getD final

theorem levelled_fresh (d : GraphData) : Levelled d 0 (.fresh d) := by
  have hlevel (v : Nat) : (Levelling.fresh d).levelAt v = none := by
    rw [Levelling.levelAt, Levelling.fresh, Array.getD_eq_getD_getElem?, Array.getElem?_replicate]
    split <;> rfl
  refine ⟨Array.size_replicate, by simp [hlevel], fun v => ?_⟩
  simp only [hlevel, Option.isNone_none, Bool.and_true]
  by_cases hv : v < d.nodes.length
  · simp [Levelling.waitingAt, Levelling.fresh, hv]
  · have hnone : (Force.links d).countP (·.2 == v) = 0 := by
      refine List.countP_eq_zero.mpr fun l hl heq => hv ?_
      exact eq_of_beq heq ▸ (mem_links.mp hl).target_lt
    simp [Levelling.waitingAt, Levelling.fresh, hv, hnone]

theorem reached_fresh (d : GraphData) :
    Reached d 0 ((List.range d.nodes.length).filter fun v => (Levelling.fresh d).waitingAt v == 0) (.fresh d) := by
  refine ⟨levelled_fresh d, by simp, List.nodup_range.filter _, fun v => ?_⟩
  rw [List.mem_filter, List.mem_range, beq_iff_eq, (levelled_fresh d).waitingAt_eq_zero, GraphData.height_zero]
  simp

theorem exists_levels (d : GraphData) : ∃ t final, levels? d = some (t.finish final) ∧ Reached d final [] t := by
  obtain ⟨t, final, hpeel, hfinal⟩ := exists_peel (reached_fresh d) (Nat.le_add_left ..)
  refine ⟨t, final, ?_, hfinal⟩
  simp only [Levelling.waitingAt, Levelling.fresh, Array.getD_eq_getD_getElem?, List.getElem?_toArray,
    ← List.getD_eq_getElem?_getD] at hpeel
  rw [levels?, hpeel]
  rfl

theorem Levelled.getElem?_finish (h : Levelled d depth t) {k : Nat} :
    (t.finish depth)[v]? = some k ↔ v < d.nodes.length ∧ (t.levelAt v).getD depth = k := by
  rw [Levelling.finish, List.getElem?_map, Array.getElem?_toList, Levelling.levelAt, Array.getD_eq_getD_getElem?,
    ← h.size]
  by_cases hv : v < t.level.size <;> simp [hv]

/-- Something leads to a node that is left when no node is next, and it is left too. -/
theorem Reached.exists_left (h : Reached d depth [] t) (hv : v < d.nodes.length) (hnone : t.levelAt v = none) :
    ∃ u, (u < d.nodes.length ∧ t.levelAt u = none) ∧ d.Feeds u v := by
  by_contra hall
  obtain ⟨k, hk, hheight⟩ : ∃ k ≤ depth, d.Height v k := by
    refine GraphData.exists_height_of_feeds fun u hlast => ?_
    obtain ⟨k, hk⟩ : ∃ k, t.levelAt u = some k := by
      refine Option.ne_none_iff_exists'.mp fun hleft => hall ⟨u, ⟨hlast.source_lt, hleft⟩, hlast⟩
    exact ⟨k, ((h.level u k).mp hk).2⟩
  obtain rfl | hlt := Nat.eq_or_lt_of_le hk
  · exact List.not_mem_nil ((h.next v).mpr ⟨hv, hheight⟩)
  · rw [(h.level v k).mpr ⟨hv, hlt, hheight⟩] at hnone
    cases hnone

/-- The nodes that are left when no node is next are those that a cycle reaches. -/
theorem Reached.levelAt_eq_none_iff (h : Reached d depth [] t) (hv : v < d.nodes.length) :
    t.levelAt v = none ↔ d.Circling v := by
  constructor
  · intro hnone
    exact GraphData.circling_of_forall_exists (P := fun v => v < d.nodes.length ∧ t.levelAt v = none)
      (fun v hleft => h.exists_left hleft.1 hleft.2) ⟨hv, hnone⟩
  · intro hcircling
    refine Option.eq_none_iff_forall_ne_some.mpr fun k hk => ?_
    exact ((h.level v k).mp hk).2.2.not_circling hcircling

/-- The levels of the nodes that no cycle reaches. -/
def levelsUsed (d : GraphData) (levels : List Nat) : Set Nat := {k | ∃ v, ¬d.Circling v ∧ levels[v]? = some k}

theorem Reached.finish_of_circling (h : Reached d depth [] t) (hv : v < d.nodes.length) (hcircling : d.Circling v) :
    (t.finish depth)[v]? = some depth := by
  rw [h.getElem?_finish, (h.levelAt_eq_none_iff hv).mpr hcircling]
  exact ⟨hv, rfl⟩

theorem Reached.finish_of_not_circling (h : Reached d depth [] t) (hv : v < d.nodes.length) (hfree : ¬d.Circling v) :
    ∃ k < depth, (t.finish depth)[v]? = some k ∧ d.Height v k := by
  obtain ⟨k, hk⟩ := Option.ne_none_iff_exists'.mp (mt (h.levelAt_eq_none_iff hv).mp hfree)
  obtain ⟨-, hlt, hheight⟩ := (h.level v k).mp hk
  exact ⟨k, hlt, h.getElem?_finish.mpr ⟨hv, by rw [hk, Option.getD_some]⟩, hheight⟩

theorem Reached.levelsUsed_eq (h : Reached d depth [] t) : levelsUsed d (t.finish depth) = Set.Iio depth := by
  ext k
  constructor
  · rintro ⟨v, hfree, hk⟩
    obtain ⟨j, hj, hv, -⟩ := h.finish_of_not_circling (h.getElem?_finish.mp hk).1 hfree
    rw [hk, Option.some_inj] at hv
    exact hv ▸ hj
  · intro hk
    obtain ⟨v, hv, hheight⟩ := h.used k hk
    obtain ⟨j, -, hj, hheight'⟩ := h.finish_of_not_circling hv hheight.not_circling
    exact ⟨v, hheight.not_circling, by rw [hj, hheight'.unique hheight]⟩

/-- The levels are found for any data, with no link taken away twice. A node that no cycle
reaches has the length of the longest path to it as its level, and all other nodes have as
their level the number of levels that these take up, which are the first ones. So where
there is no cycle the first level has the nodes that no edge leads to, and every edge leads to
a greater level. -/
theorem level_is_longest_path (d : GraphData) :
    ∃ found, levels? d = some found ∧ levels d = found ∧ found.length = d.nodes.length ∧
      (∀ v k, found[v]? = some k →
        (¬d.Circling v → d.Height v k) ∧ (d.Circling v → k = (levelsUsed d found).ncard)) ∧
      levelsUsed d found = Set.Iio (levelsUsed d found).ncard ∧
      ((∀ v, ¬TransGen d.Feeds v v) →
        (∀ v < d.nodes.length, found[v]? = some 0 ↔ ∀ u, ¬d.Feeds u v) ∧
        ∀ u v, d.Feeds u v → ∃ j k, found[u]? = some j ∧ found[v]? = some k ∧ j < k) := by
  obtain ⟨t, final, hlevels, h⟩ := exists_levels d
  have hcard : (levelsUsed d (t.finish final)).ncard = final := by
    rw [h.levelsUsed_eq, Set.ncard_eq_toFinset_card', Set.toFinset_Iio, Nat.card_Iio]
  refine ⟨_, hlevels, by rw [levels, hlevels, Option.getD_some], by simp [Levelling.finish, h.size], fun v k hk => ?_,
    by rw [hcard, h.levelsUsed_eq], fun hacyclic => ?_⟩
  · have hv := (h.getElem?_finish.mp hk).1
    constructor
    · intro hfree
      obtain ⟨j, -, hj, hheight⟩ := h.finish_of_not_circling hv hfree
      rw [hk, Option.some_inj] at hj
      exact hj ▸ hheight
    · intro hcircling
      rw [h.finish_of_circling hv hcircling, Option.some_inj] at hk
      rw [hcard, hk]
  · have hlevel (v : Nat) (hv : v < d.nodes.length) : ∃ k, (t.finish final)[v]? = some k ∧ d.Height v k := by
      obtain ⟨k, -, hk, hheight⟩ := h.finish_of_not_circling hv fun ⟨u, hcycle, _⟩ => hacyclic u hcycle
      exact ⟨k, hk, hheight⟩
    refine ⟨fun v hv => ?_, fun u v hlast => ?_⟩
    · obtain ⟨k, hk, hheight⟩ := hlevel v hv
      rw [← GraphData.height_zero, hk, Option.some_inj]
      exact ⟨fun heq => heq ▸ hheight, hheight.unique⟩
    · obtain ⟨j, hj, hheight⟩ := hlevel u hlast.source_lt
      obtain ⟨k, hk, hheight'⟩ := hlevel v hlast.target_lt
      obtain ⟨i, hi, hheight''⟩ := hheight'.lt_of_feeds hlast
      exact ⟨j, k, hj, hk, hheight.unique hheight'' ▸ hi⟩

-- Two of the nodes are on a cycle, behind the first one; the last one is alone.
example :
    levels?
      { nodes := ["a", "b", "c", "d"].map fun id => { (default : GraphNode) with id }
        edges := [("a", "b"), ("b", "c"), ("c", "b")].map fun (source, target) =>
          { (default : GraphEdge) with source, target } } = some [0, 1, 1, 0] := by decide

end Strategy

end CodeAtlas
