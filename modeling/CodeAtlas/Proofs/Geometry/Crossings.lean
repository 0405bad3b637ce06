import CodeAtlas.Proofs.Geometry.Segments
import Mathlib.Algebra.BigOperators.Fin
import Mathlib.Data.Set.Card

/-! Crossings without rounding.

What is counted over the pairs of a list is the number of its pairs of positions at which
related items stand (`countPairs_eq_ncard`); the order of the list makes no difference for a
symmetric relation (`countPairs_perm`). Where nodes have distinct ids, two edges are counted
as a crossing when they have no end in common and the segments between their places meet
inside (`crossing_iff`). So the number of crossings is the number of pairs of edges of which
this holds, and it depends neither on the order of the nodes and the edges nor on which end
of an edge comes first (`crossings_are_geometric`). -/
namespace CodeAtlas
open Scalar

/-! ### Counting pairs -/

section
variable {β γ : Type}

/-- The pairs of positions, the smaller one first, at which related items stand. -/
def relatedPairs (r : β → β → Prop) (l : List β) : Set (Fin l.length × Fin l.length) :=
  {ij | ij.1 < ij.2 ∧ r l[ij.1] l[ij.2]}

theorem countP_eq_sum (q : β → Bool) (l : List β) : l.countP q = ∑ i : Fin l.length, if q l[i] then 1 else 0 := by
  induction l with
  | nil => rfl
  | cons b rest ih =>
    rw [List.countP_cons, ih, add_comm]
    exact (Fin.sum_univ_succ fun i : Fin (rest.length + 1) => if q (b :: rest)[i] then 1 else 0).symm

theorem countPairs_eq_sum (p : β → β → Bool) (l : List β) :
    countPairs p l = ∑ i : Fin l.length, ∑ j : Fin l.length, if i < j ∧ p l[i] l[j] then 1 else 0 := by
  induction l with
  | nil => rfl
  | cons b rest ih =>
    -- no position stands before the first, and it stands before all others
    simp only [countPairs, countP_eq_sum, ih, List.length_cons, Fin.sum_univ_succ]
    simp

theorem countPairs_eq_ncard {p : β → β → Bool} {r : β → β → Prop} (h : ∀ a b, p a b = true ↔ r a b) (l : List β) :
    countPairs p l = (relatedPairs r l).ncard := by
  have hpairs : relatedPairs r l = {ij | ij.1 < ij.2 ∧ p l[ij.1] l[ij.2] = true} := by
    simp only [relatedPairs, h]
  rw [hpairs, Set.ncard_eq_toFinset_card', Set.toFinset_ofPred, Finset.card_filter, Fintype.sum_prod_type,
    countPairs_eq_sum]

theorem countPairs_perm {p : β → β → Bool} (hsymm : ∀ a b, p a b = p b a) {l l' : List β} (h : l.Perm l') :
    countPairs p l = countPairs p l' := by
  induction h with
  | nil => rfl
  | cons b h ih => rw [countPairs, countPairs, h.countP_eq, ih]
  | swap a b rest =>
    simp only [countPairs, List.countP_cons, hsymm a b]
    omega
  | trans _ _ ih ih' => exact ih.trans ih'

theorem countP_congr {p q : β → Bool} {R : β → β → Prop} (hp : ∀ b b', R b b' → p b = q b') {l l' : List β}
    (h : List.Forall₂ R l l') : l.countP p = l'.countP q := by
  induction h with
  | nil => rfl
  | cons hb _ ih => rw [List.countP_cons, List.countP_cons, ih, hp _ _ hb]

theorem countPairs_congr {p : β → β → Bool} {R : β → β → Prop}
    (hp : ∀ a a' b b', R a a' → R b b' → p a b = p a' b') {l l' : List β} (h : List.Forall₂ R l l') :
    countPairs p l = countPairs p l' := by
  induction h with
  | nil => rfl
  | cons ha hrest ih => rw [countPairs, countPairs, ih, countP_congr (fun b b' => hp _ _ b b' ha) hrest]

theorem countPairs_filterMap (p : γ → γ → Bool) (g : β → Option γ) (l : List β) :
    countPairs p (l.filterMap g) = countPairs (fun a b => (g a).any fun x => (g b).any (p x)) l := by
  induction l with
  | nil => rfl
  | cons b rest ih =>
    cases hb : g b with
    | none => simp [countPairs, hb, ih]
    | some x =>
      rw [List.filterMap_cons_some hb, countPairs, countPairs, ih, hb, List.countP_filterMap]
      congr 2
      funext a
      cases g a <;> rfl

end

/-! ### Crossing edges -/

variable {places : List (String × Point ℚ)} {e e' : String × String}

/-- Two edges have no end in common, and the segments between their places meet inside. -/
structure EdgesCross (places : List (String × Point ℚ)) (e e' : String × String) : Prop where
  ends_ne : (e.1 ≠ e'.1 ∧ e.1 ≠ e'.2) ∧ e.2 ≠ e'.1 ∧ e.2 ≠ e'.2
  segments : ∃ s t : Segment ℚ, ((e.1, s.start) ∈ places ∧ (e.2, s.stop) ∈ places) ∧
    ((e'.1, t.start) ∈ places ∧ (e'.2, t.stop) ∈ places) ∧ s.MeetsInside t

/-- The same edge, whichever of its ends comes first. -/
def SameEnds (e e' : String × String) : Prop := e' = e ∨ e' = e.swap

theorem EdgesCross.symm (h : EdgesCross places e e') : EdgesCross places e' e := by
  obtain ⟨⟨⟨h₁, h₂⟩, h₃, h₄⟩, s, t, hs, ht, hmeets⟩ := h
  exact ⟨⟨⟨h₁.symm, h₃.symm⟩, h₂.symm, h₄.symm⟩, t, s, ht, hs, hmeets.symm⟩

theorem EdgesCross.swap (h : EdgesCross places e e') : EdgesCross places e.swap e' := by
  obtain ⟨⟨h₁, h₂⟩, s, t, hs, ht, hmeets⟩ := h
  exact ⟨⟨h₂, h₁⟩, s.reverse, t, hs.symm, ht, hmeets.reverse⟩

theorem EdgesCross.mono {places' : List (String × Point ℚ)} (hsub : places ⊆ places') (h : EdgesCross places e e') :
    EdgesCross places' e e' := by
  obtain ⟨hends, s, t, ⟨hs, hs'⟩, ⟨ht, ht'⟩, hmeets⟩ := h
  exact ⟨hends, s, t, ⟨hsub hs, hsub hs'⟩, ⟨hsub ht, hsub ht'⟩, hmeets⟩

theorem Link.crosses_iff {l l' : Link ℚ} : l.crosses l' = true ↔
    ((l.source ≠ l'.source ∧ l.source ≠ l'.target) ∧ l.target ≠ l'.source ∧ l.target ≠ l'.target) ∧
      l.segment.MeetsInside l'.segment := by
  simp only [Link.crosses, Link.sharesEnd, Bool.and_eq_true, Bool.not_eq_true', Bool.or_eq_false_iff,
    beq_eq_false_iff_ne, Segment.crosses_iff, and_assoc]

/-- Do the links of two edges cross? -/
def crossing (places : List (String × Point ℚ)) (e e' : String × String) : Bool :=
  (Link.between? (placeOf places) e).any fun l => (Link.between? (placeOf places) e').any l.crosses

theorem countCrossings_eq (places : List (String × Point ℚ)) (ends : List (String × String)) :
    countCrossings places ends = countPairs (crossing places) ends := countPairs_filterMap ..

section
variable (hids : (places.map Prod.fst).Nodup)
include hids

/-- Where ids are distinct, an id has the one place that is listed. -/
theorem placeOf_eq_some_iff {id : String} {p : Point ℚ} : placeOf places id = some p ↔ (id, p) ∈ places := by
  rw [placeOf, Option.map_eq_some_iff]
  constructor
  · rintro ⟨⟨id', p'⟩, hfind, rfl⟩
    have hid : id' = id := by simpa using List.find?_some hfind
    subst hid
    exact List.mem_reverse.mp (List.mem_of_find?_eq_some hfind)
  · intro hmem
    obtain ⟨n, hn⟩ : ∃ n, places.reverse.find? (·.1 == id) = some n :=
      Option.isSome_iff_exists.mp (List.find?_isSome.mpr ⟨_, List.mem_reverse.mpr hmem, beq_self_eq_true id⟩)
    have hid : n.1 = id := by simpa using List.find?_some hn
    have hsame := List.inj_on_of_nodup_map hids (List.mem_reverse.mp (List.mem_of_find?_eq_some hn)) hmem hid
    exact ⟨n, hn, by rw [hsame]⟩

theorem between?_eq_some_iff {l : Link ℚ} :
    Link.between? (placeOf places) e = some l ↔ l.source = e.1 ∧ l.target = e.2 ∧
      (e.1, l.segment.start) ∈ places ∧ (e.2, l.segment.stop) ∈ places := by
  rw [← placeOf_eq_some_iff hids, ← placeOf_eq_some_iff hids]
  obtain ⟨source, target, start, stop⟩ := l
  unfold Link.between?
  split <;> simp_all [eq_comm]

theorem crossing_iff : crossing places e e' = true ↔ EdgesCross places e e' := by
  simp only [crossing, Option.any_eq_true, between?_eq_some_iff hids, Link.crosses_iff]
  constructor
  · rintro ⟨⟨_, _, s⟩, ⟨rfl, rfl, hs⟩, ⟨_, _, t⟩, ⟨rfl, rfl, ht⟩, hends, hmeets⟩
    exact ⟨hends, s, t, hs, ht, hmeets⟩
  · rintro ⟨hends, s, t, hs, ht, hmeets⟩
    exact ⟨⟨e.1, e.2, s⟩, ⟨rfl, rfl, hs⟩, ⟨e'.1, e'.2, t⟩, ⟨rfl, rfl, ht⟩, hends, hmeets⟩

theorem crossing_comm (e e' : String × String) : crossing places e e' = crossing places e' e := by
  rw [Bool.eq_iff_iff, crossing_iff hids, crossing_iff hids]
  exact ⟨EdgesCross.symm, EdgesCross.symm⟩

theorem crossing_swap (e e' : String × String) : crossing places e.swap e' = crossing places e e' := by
  rw [Bool.eq_iff_iff, crossing_iff hids, crossing_iff hids]
  exact ⟨fun h => e.swap_swap ▸ h.swap, EdgesCross.swap⟩

theorem crossing_congr (a a' b b' : String × String) (ha : SameEnds a a') (hb : SameEnds b b') :
    crossing places a b = crossing places a' b' := by
  have hleft (c : String × String) : crossing places a' c = crossing places a c := by
    rcases ha with rfl | rfl
    · rfl
    · exact crossing_swap hids a c
  have hright (c : String × String) : crossing places c b' = crossing places c b := by
    rcases hb with rfl | rfl
    · rfl
    · rw [crossing_comm hids, crossing_swap hids, crossing_comm hids]
  rw [hleft, hright]

theorem crossing_perm {places' : List (String × Point ℚ)} (h : places'.Perm places) :
    crossing places' = crossing places := by
  funext e e'
  rw [Bool.eq_iff_iff, crossing_iff hids, crossing_iff ((h.map Prod.fst).nodup_iff.mpr hids)]
  exact ⟨EdgesCross.mono h.subset, EdgesCross.mono h.symm.subset⟩

end

/-- The number of crossings is the number of pairs of edges that have no end in common and
whose segments, of different directions, meet in a point inside of both. It is the same for
the nodes and the edges in any order, and with the ends of any edges swapped. -/
theorem crossings_are_geometric (places : List (String × Point ℚ)) (ends : List (String × String))
    (hids : (places.map Prod.fst).Nodup) :
    countCrossings places ends = (relatedPairs (EdgesCross places) ends).ncard ∧
      (∀ places' ends', places'.Perm places → ends'.Perm ends →
        countCrossings places' ends' = countCrossings places ends) ∧
      ∀ ends', List.Forall₂ SameEnds ends ends' → countCrossings places ends' = countCrossings places ends := by
  simp only [countCrossings_eq]
  refine ⟨countPairs_eq_ncard (fun _ _ => crossing_iff hids) ends, fun places' ends' hplaces hends => ?_,
    fun ends' hends => ?_⟩
  · rw [crossing_perm hids hplaces]
    exact countPairs_perm (crossing_comm hids) hends
  · exact (countPairs_congr (crossing_congr hids) hends).symm

/-- Of the diagonals and a side of a square only the diagonals cross, in whatever way they
are listed. -/
theorem diagonals_cross_once :
    let places : List (String × Point ℚ) := [("a", ⟨0, 0⟩), ("b", ⟨100, 100⟩), ("c", ⟨0, 100⟩), ("d", ⟨100, 0⟩)]
    let ends := [("a", "b"), ("c", "d"), ("a", "c")]
    (places.map Prod.fst).Nodup ∧ countCrossings places ends = 1 ∧
      (relatedPairs (EdgesCross places) ends).ncard = 1 ∧
      countCrossings places [("b", "a"), ("c", "d"), ("c", "a")] = 1 ∧
      countCrossings places.reverse ends.reverse = 1 := by
  intro places ends
  have hids : (places.map Prod.fst).Nodup := by decide
  have hcount : countCrossings places ends = 1 := by decide +kernel
  obtain ⟨hpairs, hperm, hswap⟩ := crossings_are_geometric places ends hids
  have hreversed : List.Forall₂ SameEnds ends [("b", "a"), ("c", "d"), ("c", "a")] :=
    .cons (.inr rfl) (.cons (.inl rfl) (.cons (.inr rfl) .nil))
  exact ⟨hids, hcount, hpairs ▸ hcount, (hswap _ hreversed).trans hcount,
    (hperm _ _ (List.reverse_perm _) (List.reverse_perm _)).trans hcount⟩

end CodeAtlas
