import CodeAtlas.Proofs.Graph.Parts
import CodeAtlas.Proofs.Symbol.Identity

/-! Which edges the graph of some symbols and relationships has.

Every id has one node, that of its first symbol, and every edge lies between two nodes.
Of the relationships between nodes an edge is made of the first for each type and text of
ends. That is the first for each link, as it should be (`IsGraphOf`), exactly if no two
relationships of one type have the same text for different ends
(`links_are_kept_iff`): an id may hold the dash that the text has between the ends. Then
the graph induced by some ids is that of their symbols as well. -/
namespace CodeAtlas

/-! ### Firsts -/

/-- One item for every key, the first that has it, in the order in which the keys appear. -/
def firstOfEach {α β : Type} [BEq β] (key : α → β) (xs : List α) : List α :=
  (xs.map key).eraseDups.filterMap fun k => xs.find? fun x => key x == k

section Firsts

variable {α β : Type} [BEq β] [LawfulBEq β] {key : α → β}

/-- What is found under other keys than the first one is found in the rest. -/
theorem filterMap_find?_cons {x : α} {rest : List α} {ks : List β} (h : key x ∉ ks) :
    (ks.filterMap fun k => (x :: rest).find? fun y => key y == k) =
      ks.filterMap fun k => rest.find? fun y => key y == k := by
  refine List.filterMap_congr fun k hk => List.find?_cons_of_neg ?_
  simpa using fun heq : key x = k => h (heq ▸ hk)

theorem firstsBy_go_eq (seen : List β) (xs : List α) :
    firstsBy.go key seen xs =
      ((xs.map key).filter fun k => !seen.contains k).eraseDups.filterMap fun k => xs.find? fun x => key x == k := by
  induction xs generalizing seen with
  | nil => rfl
  | cons x rest ih =>
    rw [firstsBy.go, List.map_cons]
    by_cases hx : key x ∈ seen
    · rw [if_pos (List.contains_iff_mem.mpr hx), List.filter_cons_of_neg (by simpa using hx), filterMap_find?_cons, ih]
      rw [List.mem_eraseDups, List.mem_filter]
      simp [hx]
    · rw [if_neg (by simpa using hx), List.filter_cons_of_pos (by simpa using hx), List.eraseDups_cons,
        List.filterMap_cons, List.find?_cons_of_pos (by simp), List.filter_filter, filterMap_find?_cons, ih]
      · simp
      · rw [List.mem_eraseDups, List.mem_filter]
        simp

theorem firstsBy_eq_firstOfEach (key : α → β) (xs : List α) : firstsBy key xs = firstOfEach key xs := by
  rw [firstsBy, firstsBy_go_eq, List.filter_eq_self.mpr (by simp)]
  rfl

/-- Which keys were seen that are left out does not matter. -/
theorem firstsBy_go_filter {keep : β → Bool} {seen seen' : List β}
    (h : ∀ k, keep k = true → seen.contains k = seen'.contains k) (xs : List α) :
    firstsBy.go key seen (xs.filter fun x => keep (key x)) =
      (firstsBy.go key seen' xs).filter fun x => keep (key x) := by
  induction xs generalizing seen seen' with
  | nil => rfl
  | cons x rest ih =>
    rw [firstsBy.go, List.filter_cons]
    cases hx : keep (key x) with
    | true =>
      rw [if_pos rfl, firstsBy.go, h _ hx]
      split
      · exact ih h
      · rw [List.filter_cons, hx, if_pos rfl]
        exact congrArg (x :: ·) (ih fun k hk => by rw [List.contains_cons, List.contains_cons, h k hk])
    | false =>
      rw [if_neg (by simp)]
      split
      · exact ih h
      · rw [List.filter_cons, hx, if_neg (by simp)]
        refine ih fun k hk => ?_
        have hne : k ≠ key x := fun heq => by rw [heq, hx] at hk; cases hk
        rw [h k hk, List.contains_cons, beq_false_of_ne hne, Bool.false_or]

/-- The firsts of the items with certain keys are the firsts that have such keys. -/
theorem firstsBy_filter (keep : β → Bool) (xs : List α) :
    firstsBy key (xs.filter fun x => keep (key x)) = (firstsBy key xs).filter fun x => keep (key x) :=
  firstsBy_go_filter (fun _ _ => rfl) xs

end Firsts

/-! ### Links -/

/-- What tells an edge from others: where it comes from, where it leads, and its type. -/
def Relationship.link (r : Relationship) : String × String × RelationshipType := (r.sourceId, r.targetId, r.kind)

/-- No two relationships of one type have the same text for different ends. -/
def TellEnds (rs : List Relationship) : Prop :=
  ∀ r ∈ rs, ∀ r' ∈ rs, r.kind = r'.kind → r.key = r'.key → r.sourceId = r'.sourceId ∧ r.targetId = r'.targetId

instance (rs : List Relationship) : Decidable (TellEnds rs) :=
  inferInstanceAs (Decidable (∀ r ∈ rs, ∀ r' ∈ rs, r.kind = r'.kind → r.key = r'.key →
    r.sourceId = r'.sourceId ∧ r.targetId = r'.targetId))

theorem key_eq_of_link {r r' : Relationship} (h : r.link = r'.link) : r.key = r'.key ∧ r.kind = r'.kind := by
  obtain ⟨hsource, hrest⟩ := Prod.mk.inj h
  obtain ⟨htarget, hkind⟩ := Prod.mk.inj hrest
  exact ⟨by rw [Relationship.key, Relationship.key, hsource, htarget], hkind⟩

/-- Where texts tell ends, the first of each text is the first of each link. -/
theorem firstsBy_link {rs : List Relationship} (h : TellEnds rs) :
    firstsBy (fun r => (r.key, r.kind)) rs = firstsBy Relationship.link rs := by
  refine firstsBy_congr fun r hr r' hr' =>
    ⟨fun heq => ?_, fun heq => Prod.ext (key_eq_of_link heq).1 (key_eq_of_link heq).2⟩
  obtain ⟨hkey, hkind⟩ := Prod.mk.inj heq
  obtain ⟨hsource, htarget⟩ := h r hr r' hr' hkind hkey
  simp only [Relationship.link, hsource, htarget, hkind]

/-- Where they do not, some link has no first among those of the texts. -/
theorem tellEnds_of_firstsBy {rs : List Relationship}
    (h : firstsBy (fun r => (r.key, r.kind)) rs = firstsBy Relationship.link rs) : TellEnds rs := by
  intro r hr r' hr' hkind hkey
  obtain ⟨first, hfirst, hlink⟩ := exists_firstsBy Relationship.link hr
  obtain ⟨first', hfirst', hlink'⟩ := exists_firstsBy Relationship.link hr'
  rw [← h] at hfirst hfirst'
  -- Both firsts have the same text and type, so they are one.
  have htext : (first.key, first.kind) = (first'.key, first'.kind) := by
    rw [(key_eq_of_link hlink).1, (key_eq_of_link hlink).2, (key_eq_of_link hlink').1, (key_eq_of_link hlink').2, hkey,
      hkind]
  have hsame : first = first' :=
    List.inj_on_of_nodup_map (nodup_firstsBy (fun r : Relationship => (r.key, r.kind)) rs) hfirst hfirst' htext
  have hlinks : r.link = r'.link := hlink.symm.trans (hsame ▸ hlink')
  exact ⟨congrArg Prod.fst hlinks, congrArg (fun l => l.2.1) hlinks⟩

namespace GraphData

variable {symbols : List Symbol} {relationships : List Relationship} {d : GraphData}

/-- The graph has one node for every id, one edge for every link between nodes, and no
other edges: each made of the first symbol or relationship, in their order. -/
structure IsGraphOf (symbols : List Symbol) (relationships : List Relationship) (d : GraphData) : Prop where
  nodes : d.nodes = (firstOfEach Symbol.id symbols).map GraphNode.ofSymbol
  ends : ∀ e ∈ d.edges, e.source ∈ d.ids ∧ e.target ∈ d.ids
  edges : d.edges = (firstOfEach Relationship.link (d.inside relationships)).map GraphEdge.ofRelationship

theorem nodes_ofParts (symbols : List Symbol) (relationships : List Relationship) :
    (ofParts symbols relationships).nodes = (firstOfEach Symbol.id symbols).map GraphNode.ofSymbol := by
  rw [← firstsBy_eq_firstOfEach]
  rfl

theorem ends_ofParts : ∀ e ∈ (ofParts symbols relationships).edges,
    e.source ∈ (ofParts symbols relationships).ids ∧ e.target ∈ (ofParts symbols relationships).ids := by
  intro e he
  obtain ⟨r, hr, rfl⟩ := mem_edges_ofParts he
  exact (mem_inside.mp hr).2

theorem ofRelationship_injective {r r' : Relationship} (h : GraphEdge.ofRelationship r = GraphEdge.ofRelationship r') :
    r = r' :=
  congrArg GraphEdge.relationship h

/-- Every link has its edge exactly if texts tell ends. -/
theorem isGraphOf_ofParts_iff : IsGraphOf symbols relationships (ofParts symbols relationships) ↔
    TellEnds ((ofParts symbols relationships).inside relationships) := by
  constructor
  · intro h
    have hedges := h.edges
    rw [edges_ofParts, ← firstsBy_eq_firstOfEach] at hedges
    exact tellEnds_of_firstsBy (List.map_injective_iff.mpr (fun _ _ => ofRelationship_injective) hedges)
  · intro h
    refine ⟨nodes_ofParts symbols relationships, ends_ofParts, ?_⟩
    rw [edges_ofParts, firstsBy_link h, firstsBy_eq_firstOfEach]

/-! ### Induced graphs -/

theorem ids_induced (d : GraphData) (chosen : String → Bool) : (d.induced chosen).ids = d.ids.filter chosen := by
  rw [ids, ids, List.filter_map]
  rfl

/-- The relationships inside an induced graph. -/
theorem inside_induced (d : GraphData) (chosen : String → Bool) (relationships : List Relationship) :
    (d.induced chosen).inside relationships =
      (d.inside relationships).filter fun r => chosen r.sourceId && chosen r.targetId := by
  rw [inside, inside, ids_induced, List.filter_filter]
  refine List.filter_congr fun r _ => ?_
  rw [Bool.eq_iff_iff]
  simp only [Bool.and_eq_true, List.contains_iff_mem, List.mem_filter]
  tauto

theorem ends_induced (h : ∀ e ∈ d.edges, e.source ∈ d.ids ∧ e.target ∈ d.ids) (chosen : String → Bool) :
    ∀ e ∈ (d.induced chosen).edges, e.source ∈ (d.induced chosen).ids ∧ e.target ∈ (d.induced chosen).ids := by
  intro e he
  obtain ⟨he, hchosen⟩ := List.mem_filter.mp he
  obtain ⟨hsource, htarget⟩ := Bool.and_eq_true_iff.mp hchosen
  rw [ids_induced]
  exact ⟨List.mem_filter.mpr ⟨(h e he).1, hsource⟩, List.mem_filter.mpr ⟨(h e he).2, htarget⟩⟩

/-- The nodes of an induced graph are those of the chosen symbols. -/
theorem nodes_induced (h : d.nodes = (firstOfEach Symbol.id symbols).map GraphNode.ofSymbol) (chosen : String → Bool) :
    (d.induced chosen).nodes =
      (firstOfEach Symbol.id (symbols.filter fun s => chosen s.id)).map GraphNode.ofSymbol := by
  show d.nodes.filter _ = _
  rw [h, ← firstsBy_eq_firstOfEach, ← firstsBy_eq_firstOfEach, firstsBy_filter, List.filter_map]
  rfl

/-- To choose among the ids is to choose among the symbols. -/
theorem IsGraphOf.induced (h : IsGraphOf symbols relationships d) (chosen : String → Bool) :
    IsGraphOf (symbols.filter fun s => chosen s.id) relationships (d.induced chosen) where
  nodes := nodes_induced h.nodes chosen
  ends := ends_induced h.ends chosen
  edges := by
    show d.edges.filter _ = _
    let keep (l : String × String × RelationshipType) : Bool := chosen l.1 && chosen l.2.1
    have hfirsts : firstsBy Relationship.link ((d.inside relationships).filter fun r => keep r.link) = _ :=
      firstsBy_filter keep _
    rw [h.edges, inside_induced, ← firstsBy_eq_firstOfEach, ← firstsBy_eq_firstOfEach]
    rw [List.filter_map]
    exact congrArg (List.map GraphEdge.ofRelationship) hfirsts.symm

/-! ### Every graph -/

/-- However symbols and relationships are listed: there is one node for every id, that of its
first symbol, in order; every edge lies between two nodes, no two have one link, and each is
that of the first relationship between nodes with its type and text of ends, in order. The
graph has the edge of every link, as it should, exactly if no two relationships of one type
between nodes have the same text for different ends. Whatever ids are chosen, the induced
graph has the nodes of the chosen symbols, its edges lie between these, and no two have one
link; and it has the edge of every link if the whole graph has. -/
theorem links_are_kept_iff (symbols : List Symbol) (relationships : List Relationship) :
    let d := ofParts symbols relationships
    let links (d : GraphData) := d.edges.map fun e => (e.source, e.target, e.relationship.kind)
    d.nodes = (firstOfEach Symbol.id symbols).map GraphNode.ofSymbol ∧
      (∀ e ∈ d.edges, e.source ∈ d.ids ∧ e.target ∈ d.ids) ∧ (links d).Nodup ∧
      d.edges = (firstOfEach (fun r => (r.key, r.kind)) (d.inside relationships)).map GraphEdge.ofRelationship ∧
      (IsGraphOf symbols relationships d ↔ TellEnds (d.inside relationships)) ∧
      ∀ chosen : String → Bool,
        let sub := d.induced chosen
        let kept := symbols.filter fun s => chosen s.id
        sub.nodes = (firstOfEach Symbol.id kept).map GraphNode.ofSymbol ∧
          (∀ e ∈ sub.edges, e.source ∈ sub.ids ∧ e.target ∈ sub.ids) ∧ (links sub).Nodup ∧
          (TellEnds (d.inside relationships) → IsGraphOf kept relationships sub) := by
  intro d links
  have hlinks : (links d).Nodup := nodup_edges_ofParts symbols relationships
  refine ⟨nodes_ofParts symbols relationships, ends_ofParts, hlinks, ?_, isGraphOf_ofParts_iff, fun chosen => ?_⟩
  · rw [← firstsBy_eq_firstOfEach]
    exact edges_ofParts symbols relationships
  · refine ⟨nodes_induced (nodes_ofParts symbols relationships) chosen, ends_induced ends_ofParts chosen, ?_,
      fun h => ?_⟩
    · exact (List.filter_sublist.map _).nodup hlinks
    · exact (isGraphOf_ofParts_iff.mpr h).induced chosen

/-- A symbol for each of some ids. -/
def symbolsOf (ids : List String) : List Symbol := ids.map fun id => { (default : Symbol) with id, name := id }

/-- Two ids, one with a dash, that call and use each other. -/
def tellingCalls : List Relationship :=
  [⟨"a-b", "c", .calls, {}⟩, ⟨"c", "a-b", .calls, {}⟩, ⟨"a-b", "c", .uses, {}⟩, ⟨"a-b", "c", .calls, {}⟩]

/-- Their graph has the edge of every link, and so has the one that the id with the dash induces. -/
theorem dashed_pair_is_kept :
    let symbols := symbolsOf ["a-b", "c", "a-b"]
    let d := ofParts symbols tellingCalls
    let chosen (id : String) : Bool := id == "a-b"
    TellEnds (d.inside tellingCalls) ∧ IsGraphOf symbols tellingCalls d ∧
      IsGraphOf (symbols.filter fun s => chosen s.id) tellingCalls (d.induced chosen) := by
  intro symbols d chosen
  have htell : TellEnds (d.inside tellingCalls) := by decide +kernel
  obtain ⟨-, -, -, -, hiff, hinduced⟩ := links_are_kept_iff symbols tellingCalls
  exact ⟨htell, hiff.mpr htell, (hinduced chosen).2.2.2 htell⟩

/-- Two calls whose ends are four different ids with one text. -/
def blurredCalls : List Relationship := [⟨"a", "b-c", .calls, {}⟩, ⟨"a-b", "c", .calls, {}⟩]

/-- Not every graph has the edge of every link: of those two calls the second has none. -/
theorem blurred_call_is_lost :
    ((ofParts (symbolsOf ["a", "a-b", "b-c", "c"]) blurredCalls).edges.map fun e => (e.source, e.target)) =
        [("a", "b-c")] ∧
      ¬ ∀ symbols relationships, IsGraphOf symbols relationships (ofParts symbols relationships) := by
  refine ⟨by decide +kernel, fun h => ?_⟩
  have htell := isGraphOf_ofParts_iff.mp (h (symbolsOf ["a", "a-b", "b-c", "c"]) blurredCalls)
  exact absurd htell (by decide +kernel)

end GraphData

end CodeAtlas
