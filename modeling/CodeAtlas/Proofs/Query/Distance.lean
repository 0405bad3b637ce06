import CodeAtlas.Proofs.Query.Answer

/-! How far a search goes.

What counts is by how many relationships an id can be reached from the start (`Walk`). After
every round the ids that were visited are those within as many relationships as there were
rounds, the frontier is what is exactly so far away, and what was found came in order of
distance (`Explored`). One round finds each id that lies one relationship beyond the frontier,
and finds it once (`tryAll_finds`). So a search of a given depth finds exactly the ids within
that distance, whether or not they have symbols (`follow_finds`). -/
namespace CodeAtlas

/-- Followed in this direction, the relationship leads from the one id to the other. -/
def Relationship.Leads (direction : TraversalDirection) (r : Relationship) (a b : String) : Prop :=
  match direction with
  | .outgoing => r.sourceId = a ∧ r.targetId = b
  | .incoming => r.targetId = a ∧ r.sourceId = b
  | .both => (r.sourceId = a ∧ r.targetId = b) ∨ (r.targetId = a ∧ r.sourceId = b)

/-- An id that can be reached from one of the start ids in so many steps. -/
inductive Walk (linked : String → String → Prop) (start : List String) : Nat → String → Prop where
  | begin {id : String} (h : id ∈ start) : Walk linked start 0 id
  | step {n : Nat} {a b : String} (h : Walk linked start n a) (link : linked a b) : Walk linked start (n + 1) b

/-- An id that can be reached in at most so many steps. -/
def Within (linked : String → String → Prop) (start : List String) (n : Nat) (id : String) : Prop :=
  ∃ m ≤ n, Walk linked start m id

/-- The first id is not farther away than the second. -/
def NotBeyond (linked : String → String → Prop) (start : List String) (a b : String) : Prop :=
  ∀ n, Within linked start n b → Within linked start n a

section Distances

variable {linked : String → String → Prop} {start : List String} {n m : Nat} {a b id : String}

theorem Within.mono (h : Within linked start n id) (hle : n ≤ m) : Within linked start m id := by
  obtain ⟨k, hk, hwalk⟩ := h
  exact ⟨k, hk.trans hle, hwalk⟩

theorem Within.step (h : Within linked start n a) (link : linked a b) : Within linked start (n + 1) b := by
  obtain ⟨k, hk, hwalk⟩ := h
  exact ⟨k + 1, Nat.succ_le_succ hk, hwalk.step link⟩

theorem within_zero_iff : Within linked start 0 id ↔ id ∈ start := by
  constructor
  · rintro ⟨m, hm, hwalk⟩
    cases hwalk with
    | begin h => exact h
    | step h link => omega
  · exact fun h => ⟨0, Nat.le_refl 0, .begin h⟩

/-- An id is one step farther away than another that leads to it. -/
theorem within_succ_iff :
    Within linked start (n + 1) b ↔ Within linked start n b ∨ ∃ a, Within linked start n a ∧ linked a b := by
  constructor
  · rintro ⟨m, hm, hwalk⟩
    cases hwalk with
    | begin h => exact .inl ⟨0, Nat.zero_le n, .begin h⟩
    | @step k a _ h link => exact .inr ⟨a, ⟨k, Nat.le_of_succ_le_succ hm, h⟩, link⟩
  · rintro (h | ⟨a, h, link⟩)
    · exact h.mono (Nat.le_succ n)
    · exact h.step link

/-- Where nothing new is one step farther away, nothing new is any farther away. -/
theorem within_of_settled (h : ∀ id, Within linked start (n + 1) id → Within linked start n id)
    (hid : Within linked start m id) : Within linked start n id := by
  obtain ⟨k, -, hwalk⟩ := hid
  induction hwalk with
  | begin hstart => exact ⟨0, Nat.zero_le n, .begin hstart⟩
  | step _ link ih => exact h _ (ih.step link)

/-- What is within a distance comes before what is not. -/
theorem notBeyond_of_within (ha : Within linked start n a) (hb : ∀ k < n, ¬Within linked start k b) :
    NotBeyond linked start a b := by
  intro k hk
  exact ha.mono (Nat.le_of_not_lt fun hlt => hb k hlt hk)

end Distances

namespace Reach

variable {direction : TraversalDirection} {frontier visited : List String} {symbolOf : String → Option Symbol}
  {candidates : List Relationship} {s s' s'' : Reach} {r : Relationship} {id : String}

/-! ### One round -/

/-- The relationship leads from the frontier to the id. -/
def LeadsOn (direction : TraversalDirection) (frontier : List String) (r : Relationship) (id : String) : Prop :=
  ∃ a ∈ frontier, r.Leads direction a id

theorem leadsOn_of_reached? (h : reached? direction frontier visited r = some id) : LeadsOn direction frontier r id := by
  unfold reached? at h
  cases direction with
  | outgoing =>
    obtain ⟨hfrom, hid⟩ := Option.ite_none_right_eq_some.mp h
    exact ⟨r.sourceId, List.contains_iff_mem.mp hfrom, rfl, Option.some.inj hid⟩
  | incoming =>
    obtain ⟨hfrom, hid⟩ := Option.ite_none_right_eq_some.mp h
    exact ⟨r.targetId, List.contains_iff_mem.mp hfrom, rfl, Option.some.inj hid⟩
  | both =>
    dsimp only at h
    split at h
    · rename_i hfrom
      exact ⟨r.sourceId, List.contains_iff_mem.mp (Bool.and_eq_true_iff.mp hfrom).1, .inl ⟨rfl, Option.some.inj h⟩⟩
    · obtain ⟨hfrom, hid⟩ := Option.ite_none_right_eq_some.mp h
      exact ⟨r.targetId, List.contains_iff_mem.mp hfrom, .inr ⟨rfl, Option.some.inj hid⟩⟩

/-- A new id the relationship leads to is what it is tried for. -/
theorem reached?_of_leadsOn (hvisited : frontier ⊆ visited) (h : LeadsOn direction frontier r id) (hnew : id ∉ visited) :
    reached? direction frontier visited r = some id := by
  obtain ⟨a, ha, hleads⟩ := h
  have hfrom : frontier.contains a = true := List.contains_iff_mem.mpr ha
  have hnotYet : visited.contains id = false := by simpa using hnew
  cases direction with
  | outgoing =>
    obtain ⟨rfl, rfl⟩ := hleads
    exact if_pos hfrom
  | incoming =>
    obtain ⟨rfl, rfl⟩ := hleads
    exact if_pos hfrom
  | both =>
    rcases hleads with ⟨rfl, rfl⟩ | ⟨rfl, rfl⟩
    · rw [reached?, hfrom, hnotYet]
      rfl
    · -- The source is new, so it is not in the frontier.
      have hsource : frontier.contains r.sourceId = false := by simpa using fun hs => hnew (hvisited hs)
      rw [reached?, hfrom, hsource]
      rfl

/-- What a search has found in addition, in this order. -/
structure Finds (symbolOf : String → Option Symbol) (s : Reach) (found : List String) (s' : Reach) : Prop where
  visited : s'.visited = found.reverse ++ s.visited
  next : s'.next = found.reverse ++ s.next
  symbols : s'.symbols = s.symbols ++ found.filterMap symbolOf

theorem Finds.refl (symbolOf : String → Option Symbol) (s : Reach) : Finds symbolOf s [] s :=
  ⟨rfl, rfl, (List.append_nil _).symm⟩

theorem Finds.trans {xs ys : List String} (h : Finds symbolOf s xs s') (h' : Finds symbolOf s' ys s'') :
    Finds symbolOf s (xs ++ ys) s'' where
  visited := by rw [h'.visited, h.visited, List.reverse_append, List.append_assoc]
  next := by rw [h'.next, h.next, List.reverse_append, List.append_assoc]
  symbols := by rw [h'.symbols, h.symbols, List.filterMap_append, List.append_assoc]

/-- A relationship is tried: it leads nowhere new, or to one new id. -/
theorem tryOne_finds (direction : TraversalDirection) (symbolOf : String → Option Symbol)
    (hvisited : frontier ⊆ s.visited) (r : Relationship) :
    ∃ found, Finds symbolOf s found (tryOne direction frontier symbolOf s r) ∧ found.Nodup ∧
      ∀ id, id ∈ found ↔ id ∉ s.visited ∧ LeadsOn direction frontier r id := by
  have hstays : (∀ id, reached? direction frontier s.visited r = some id → id ∈ s.visited) →
      ∀ id, id ∈ [] ↔ id ∉ s.visited ∧ LeadsOn direction frontier r id := fun h id =>
    ⟨fun hid => (List.not_mem_nil hid).elim,
      fun ⟨hnew, hleads⟩ => absurd (h id (reached?_of_leadsOn hvisited hleads hnew)) hnew⟩
  unfold tryOne
  cases hreached : reached? direction frontier s.visited r with
  | none => exact ⟨[], .refl symbolOf s, .nil, hstays (by simp [hreached])⟩
  | some id =>
    dsimp only
    by_cases hid : id ∈ s.visited
    · rw [if_pos (List.contains_iff_mem.mpr hid)]
      exact ⟨[], .refl symbolOf s, .nil, hstays (by simpa [hreached] using hid)⟩
    · rw [if_neg (by simpa using hid)]
      refine ⟨[id], ⟨rfl, rfl, ?_⟩, List.nodup_singleton id, fun x => ?_⟩
      · cases h : symbolOf id <;> simp [h]
      · rw [List.mem_singleton]
        constructor
        · rintro rfl
          exact ⟨hid, leadsOn_of_reached? hreached⟩
        · rintro ⟨hnew, hleads⟩
          exact Option.some.inj ((reached?_of_leadsOn hvisited hleads hnew).symm.trans hreached)

/-- All relationships are tried: every new id that one of them leads to is found once. -/
theorem tryAll_finds (direction : TraversalDirection) (symbolOf : String → Option Symbol)
    (hvisited : frontier ⊆ s.visited) (rs : List Relationship) :
    ∃ found, Finds symbolOf s found (rs.foldl (tryOne direction frontier symbolOf) s) ∧ found.Nodup ∧
      ∀ id, id ∈ found ↔ id ∉ s.visited ∧ ∃ r ∈ rs, LeadsOn direction frontier r id := by
  induction rs generalizing s with
  | nil => exact ⟨[], .refl symbolOf s, .nil, by simp⟩
  | cons r rs ih =>
    obtain ⟨first, hfirst, hfirstNodup, hmemFirst⟩ := tryOne_finds direction symbolOf hvisited r
    have hgrown : ∀ id, id ∈ (tryOne direction frontier symbolOf s r).visited ↔ id ∈ first ∨ id ∈ s.visited := by
      simp [hfirst.visited]
    obtain ⟨rest, hrest, hrestNodup, hmemRest⟩ := ih fun id hid => (hgrown id).mpr (.inr (hvisited hid))
    refine ⟨first ++ rest, hfirst.trans hrest, ?_, fun id => ?_⟩
    · refine List.nodup_append'.mpr ⟨hfirstNodup, hrestNodup, fun id h h' => ?_⟩
      exact ((hmemRest id).mp h').1 ((hgrown id).mpr (.inl h))
    · rw [List.mem_append, hmemFirst, hmemRest, hgrown, hmemFirst, List.exists_mem_cons_iff]
      tauto

/-! ### Rounds -/

/-- How things are linked by some relationships. -/
def Linked (direction : TraversalDirection) (candidates : List Relationship) (a b : String) : Prop :=
  ∃ r ∈ candidates, r.Leads direction a b

/-- After so many rounds the search has found these ids. -/
structure Explored (linked : String → String → Prop) (symbolOf : String → Option Symbol) (matched : List Symbol)
    (start : List String) (n : Nat) (found : List String) (s : Reach) : Prop where
  visited : ∀ id, id ∈ s.visited ↔ Within linked start n id
  symbols : s.symbols = matched ++ found.filterMap symbolOf
  distinct : found.Nodup
  mem_found : ∀ id, id ∈ found ↔ id ∉ start ∧ Within linked start n id
  ordered : found.Pairwise (NotBeyond linked start)

/-- What is exactly so far away. -/
def IsFrontier (linked : String → String → Prop) (start : List String) (n : Nat) (frontier : List String) : Prop :=
  ∀ id, id ∈ frontier ↔ Within linked start n id ∧ ∀ m < n, ¬Within linked start m id

variable {linked : String → String → Prop} {matched : List Symbol} {start found : List String} {n : Nat}

theorem explored_start (linked : String → String → Prop) (symbolOf : String → Option Symbol) (matched : List Symbol)
    (relationships : List Relationship) :
    let start := matched.map Symbol.id
    Explored linked symbolOf matched start 0 [] { visited := start, symbols := matched, relationships } where
  visited id := within_zero_iff.symm
  symbols := (List.append_nil matched).symm
  distinct := .nil
  mem_found id := by simp [within_zero_iff]
  ordered := .nil

theorem isFrontier_start (linked : String → String → Prop) (start : List String) : IsFrontier linked start 0 start := by
  intro id
  simp [within_zero_iff]

/-- What one step from the frontier leads to is one step farther away, and nothing else is. -/
theorem leadsOn_iff (hfrontier : IsFrontier (Linked direction candidates) start n frontier) :
    (¬Within (Linked direction candidates) start n id ∧ ∃ r ∈ candidates, LeadsOn direction frontier r id) ↔
      Within (Linked direction candidates) start (n + 1) id ∧ ¬Within (Linked direction candidates) start n id := by
  constructor
  · rintro ⟨hnew, r, hr, a, ha, hleads⟩
    exact ⟨((hfrontier a).mp ha).1.step ⟨r, hr, hleads⟩, hnew⟩
  · rintro ⟨hwithin, hnew⟩
    obtain ⟨a, ha, r, hr, hleads⟩ := (within_succ_iff.mp hwithin).resolve_left hnew
    refine ⟨hnew, r, hr, a, (hfrontier a).mpr ⟨ha, fun m hm hnear => hnew ?_⟩, hleads⟩
    exact (hnear.step ⟨r, hr, hleads⟩).mono hm

theorem isFrontier_succ {next : List String}
    (h : ∀ id, id ∈ next ↔ Within linked start (n + 1) id ∧ ¬Within linked start n id) :
    IsFrontier linked start (n + 1) next := by
  intro id
  rw [h]
  refine and_congr_right fun _ => ⟨fun hnew m hm hnear => hnew (hnear.mono (Nat.le_of_lt_succ hm)), fun hnew => ?_⟩
  exact hnew n (Nat.lt_succ_self n)

/-- Finding all that is one step farther away is another round. -/
theorem Explored.extend {more : List String} (h : Explored linked symbolOf matched start n found s)
    (hfinds : Finds symbolOf s more s') (hnodup : more.Nodup)
    (hmore : ∀ id, id ∈ more ↔ Within linked start (n + 1) id ∧ ¬Within linked start n id) :
    Explored linked symbolOf matched start (n + 1) (found ++ more) s' := by
  have hmono (id : String) : Within linked start n id → Within linked start (n + 1) id := fun hid =>
    hid.mono (Nat.le_succ n)
  have hstart (id : String) : id ∈ start → Within linked start n id := fun hid =>
    (within_zero_iff.mpr hid).mono (Nat.zero_le n)
  refine ⟨fun id => ?_, ?_, ?_, fun id => ?_, ?_⟩
  · have hgrown : id ∈ s'.visited ↔ id ∈ more ∨ id ∈ s.visited := by
      rw [hfinds.visited, List.mem_append, List.mem_reverse]
    have := hmono id
    rw [hgrown, hmore, h.visited]
    tauto
  · rw [hfinds.symbols, h.symbols, List.filterMap_append, List.append_assoc]
  · refine List.nodup_append'.mpr ⟨h.distinct, hnodup, fun id hid hid' => ?_⟩
    exact ((hmore id).mp hid').2 ((h.mem_found id).mp hid).2
  · have := hmono id
    have := hstart id
    rw [List.mem_append, h.mem_found, hmore]
    tauto
  · refine List.pairwise_append.mpr ⟨h.ordered, ?_, fun a ha b hb => ?_⟩
    · refine List.pairwise_of_forall_mem_list fun a ha b hb => ?_
      exact notBeyond_of_within ((hmore a).mp ha).1 fun k hk hnear =>
        ((hmore b).mp hb).2 (hnear.mono (Nat.le_of_lt_succ hk))
    · exact notBeyond_of_within ((h.mem_found a).mp ha).2 fun k hk hnear => ((hmore b).mp hb).2 (hnear.mono hk.le)

/-- One round goes one step farther, and what it finds is the next frontier. -/
theorem Explored.round (h : Explored (Linked direction candidates) symbolOf matched start n found s)
    (hfrontier : IsFrontier (Linked direction candidates) start n frontier) :
    let s' := candidates.foldl (tryOne direction frontier symbolOf) { s with next := [] }
    (∃ more, Explored (Linked direction candidates) symbolOf matched start (n + 1) (found ++ more) s') ∧
      IsFrontier (Linked direction candidates) start (n + 1) s'.next := by
  intro s'
  have hvisited : frontier ⊆ s.visited := fun id hid => (h.visited id).mpr ((hfrontier id).mp hid).1
  have hblank : Explored (Linked direction candidates) symbolOf matched start n found { s with next := [] } :=
    ⟨h.visited, h.symbols, h.distinct, h.mem_found, h.ordered⟩
  obtain ⟨more, hfinds, hnodup, hmem⟩ := tryAll_finds direction (s := { s with next := [] }) symbolOf
    hvisited candidates
  have hmore : ∀ id, id ∈ more ↔ Within (Linked direction candidates) start (n + 1) id ∧
      ¬Within (Linked direction candidates) start n id := by
    intro id
    rw [hmem, h.visited, leadsOn_iff hfrontier]
  refine ⟨⟨more, hblank.extend hfinds hnodup hmore⟩, isFrontier_succ fun id => ?_⟩
  have hnext : s'.next = more.reverse := hfinds.next.trans (List.append_nil _)
  rw [hnext, List.mem_reverse, hmore]

/-- What is within one distance may be what is within another. -/
theorem Explored.of_within_iff {m : Nat} (h : Explored linked symbolOf matched start n found s)
    (hiff : ∀ id, Within linked start n id ↔ Within linked start m id) :
    Explored linked symbolOf matched start m found s where
  visited id := (h.visited id).trans (hiff id)
  symbols := h.symbols
  distinct := h.distinct
  mem_found id := by rw [h.mem_found, hiff]
  ordered := h.ordered

/-- All rounds go as many steps farther; when one finds nothing, there is nothing more to find. -/
theorem Explored.steps (h : Explored (Linked direction candidates) symbolOf matched start n found s)
    (hfrontier : IsFrontier (Linked direction candidates) start n frontier) (depth : Nat) :
    ∃ more, Explored (Linked direction candidates) symbolOf matched start (n + depth) (found ++ more)
      (steps direction candidates symbolOf depth frontier s) := by
  induction depth generalizing n found frontier s with
  | zero => exact ⟨[], (List.append_nil found).symm ▸ h⟩
  | succ depth ih =>
    obtain ⟨⟨more, hround⟩, hnext⟩ := h.round hfrontier
    have hdepth : n + (depth + 1) = n + 1 + depth := by omega
    rw [Reach.steps, hdepth]
    split
    · rename_i hnone
      refine ⟨more, hround.of_within_iff fun id => ⟨fun hid => hid.mono (Nat.le_add_right _ _), fun hid => ?_⟩⟩
      have hsettled : ∀ id, Within (Linked direction candidates) start (n + 1) id →
          Within (Linked direction candidates) start n id := by
        intro id hid
        by_contra hnew
        have hmem := (hnext id).mpr ⟨hid, fun m hm hnear => hnew (hnear.mono (Nat.le_of_lt_succ hm))⟩
        rw [List.isEmpty_iff.mp hnone] at hmem
        exact List.not_mem_nil hmem
      exact (within_of_settled hsettled hid).mono (Nat.le_succ n)
    · obtain ⟨rest, hrest⟩ := ih hround hnext
      exact ⟨more ++ rest, (List.append_assoc found more rest) ▸ hrest⟩

end Reach

/-! ### Searches -/

namespace GraphQuery

variable {q : GraphQuery} {t : Traversal}

/-- A query that follows relationships has no pages. -/
theorem answer_of_traverse (h : q.traverse = some t) (limit offset : Option Int64) (symbols : List Symbol)
    (relationships : List Relationship) :
    ({ q with limit, offset } : GraphQuery).answer symbols relationships = q.answer symbols relationships := by
  unfold answer
  dsimp only
  rw [h]
  rfl

theorem answerFrom_of_traverse (h : q.traverse = some t) (limit offset : Option Int64) (top : Int) (scope : QueryScope)
    (ix : Index) : ({ q with limit, offset } : GraphQuery).answerFrom top scope ix = q.answerFrom top scope ix := by
  have hnormal : ∃ limit' offset', ({ q with limit, offset } : GraphQuery).normalize top =
      { q.normalize top with limit := limit', offset := offset' } := ⟨_, _, rfl⟩
  have htraverse : ∃ t', (q.normalize top).traverse = some t' := by
    rw [normalize, h]
    exact ⟨_, rfl⟩
  obtain ⟨limit', offset', hnormal⟩ := hnormal
  obtain ⟨t', ht'⟩ := htraverse
  rw [answerFrom, answerFrom, hnormal]
  exact answer_of_traverse ht' limit' offset' _ _

end GraphQuery

namespace Traversal

/-- Is the relationship of a type that is followed? -/
def follows (t : Traversal) (r : Relationship) : Bool :=
  match t.relationshipTypes with
  | none => true
  | some types => types.contains r.kind

/-- One relationship of a followed type leads from the one id to the other. -/
def Linked (t : Traversal) (all : List Relationship) (a b : String) : Prop :=
  ∃ r ∈ all, t.follows r = true ∧ r.Leads t.direction a b

/-- How many relationships a search follows at most. -/
def radius (t : Traversal) : Nat := t.depth.toInt.toNat

theorem linked_filter (t : Traversal) (all : List Relationship) :
    Reach.Linked t.direction (all.filter t.follows) = t.Linked all := by
  funext a b
  simp only [Reach.Linked, Linked, List.mem_filter, and_assoc]

/-- When every id has its own symbol, the symbols of some ids are known by these. -/
theorem map_id_filterMap {symbolOf : String → Option Symbol} (hown : ∀ id s, symbolOf id = some s → s.id = id)
    {ids : List String} (h : ∀ id ∈ ids, (symbolOf id).isSome = true) :
    (ids.filterMap symbolOf).map Symbol.id = ids := by
  induction ids with
  | nil => rfl
  | cons id ids ih =>
    obtain ⟨s, hs⟩ := Option.isSome_iff_exists.mp (h id List.mem_cons_self)
    rw [List.filterMap_cons_some hs, List.map_cons, hown id s hs, ih fun x hx => h x (List.mem_cons_of_mem id hx)]

/-- A search from the matched symbols gives these, in their order, and after them the symbols of
all other ids that can be reached from theirs by at most `radius` relationships of a followed type
in the direction: each id once, and none before one that is nearer. Pages do not matter to it. -/
theorem follow_finds (t : Traversal) (matched : List Symbol) (matchedRelationships all : List Relationship)
    (symbolOf : String → Option Symbol) :
    let start := matched.map Symbol.id
    (∃ found : List String,
      (t.follow matched matchedRelationships all symbolOf).1 = matched ++ found.filterMap symbolOf ∧
        ((∀ id s, symbolOf id = some s → s.id = id) → (found.filterMap symbolOf).map Symbol.id = found) ∧
        found.Nodup ∧
        (∀ id, id ∈ found ↔ (symbolOf id).isSome = true ∧ id ∉ start ∧ Within (t.Linked all) start t.radius id) ∧
        found.Pairwise (NotBeyond (t.Linked all) start)) ∧
      ∀ (q : GraphQuery) (top : Int) (scope : QueryScope) (ix : Index) (limit offset : Option Int64),
        q.traverse = some t → ({ q with limit, offset } : GraphQuery).answerFrom top scope ix = q.answerFrom top scope ix := by
  intro start
  obtain ⟨visited, hvisited⟩ :=
    (Reach.explored_start (Reach.Linked t.direction (all.filter t.follows)) symbolOf matched
      (matchedRelationships.foldl Reach.addRelationship [])).steps (Reach.isFrontier_start _ start) t.radius
  rw [t.linked_filter all, Nat.zero_add, List.nil_append] at hvisited
  have hsymbols : (t.follow matched matchedRelationships all symbolOf).1 = matched ++ visited.filterMap symbolOf :=
    hvisited.symbols
  -- Of the ids that were visited, those with symbols were found.
  let found := visited.filter fun id => (symbolOf id).isSome
  have hindexed : found.filterMap symbolOf = visited.filterMap symbolOf := by
    rw [List.filterMap_filter]
    refine List.filterMap_congr fun id _ => ?_
    cases symbolOf id <;> rfl
  refine ⟨⟨found, hindexed ▸ hsymbols, fun hown => ?_, hvisited.distinct.filter _, fun id => ?_, ?_⟩, ?_⟩
  · exact map_id_filterMap hown fun id hid => (List.mem_filter.mp hid).2
  · rw [List.mem_filter, hvisited.mem_found]
    tauto
  · exact hvisited.ordered.filter _
  · exact fun q top scope ix limit offset ht => GraphQuery.answerFrom_of_traverse ht limit offset top scope ix

end Traversal

end CodeAtlas
