import CodeAtlas.Proofs.Query.Distance

/-! How what a search reaches hangs together.

The relationship that first leads to an id is returned, unless one with the same text of ends
is returned already. So after every round each visited id is a start id, or one step farther
away than an id from which a relationship leads to it whose text of ends a returned
relationship has (`Joined`). Where that text tells the ends of the relationships that lead to
the id, the returned one leads to it as well (`reached_ids_are_joined`). It need not be of a
type that is followed: a selected relationship of any type with these ends is returned in the
place of one that was followed (`selected_type_stands_in`). -/
namespace CodeAtlas

/-- An id that can be reached in so many steps and in no fewer. -/
def ReachedAt (linked : String → String → Prop) (start : List String) (n : Nat) (id : String) : Prop :=
  Within linked start n id ∧ ∀ m < n, ¬Within linked start m id

theorem reachedAt_succ {linked : String → String → Prop} {start : List String} {n : Nat} {id : String}
    (h : Within linked start (n + 1) id) (hnew : ¬Within linked start n id) : ReachedAt linked start (n + 1) id :=
  ⟨h, fun _ hm hnear => hnew (hnear.mono (Nat.le_of_lt_succ hm))⟩

/-- No other of these relationships has the text of the ends of one of the followed ones that lead to the id. -/
def EndsToldAt (direction : TraversalDirection) (followed others : List Relationship) (id : String) : Prop :=
  ∀ r ∈ followed, ∀ a, r.Leads direction a id → ∀ x ∈ others, x.key = r.key →
    x.sourceId = r.sourceId ∧ x.targetId = r.targetId

/-- Only the ends decide where a relationship leads. -/
theorem Relationship.Leads.of_ends {direction : TraversalDirection} {r x : Relationship} {a b : String}
    (h : r.Leads direction a b) (hends : x.sourceId = r.sourceId ∧ x.targetId = r.targetId) :
    x.Leads direction a b := by
  unfold Leads at h ⊢
  rw [hends.1, hends.2]
  exact h

namespace Reach

variable {direction : TraversalDirection} {frontier start found : List String} {symbolOf : String → Option Symbol}
  {candidates rs : List Relationship} {s : Reach} {r x : Relationship} {id : String} {n : Nat} {matched : List Symbol}

/-! ### What is returned stays -/

theorem subset_addRelationship (rs : List Relationship) (r : Relationship) : rs ⊆ addRelationship rs r := by
  unfold addRelationship
  split
  · exact List.Subset.refl rs
  · exact List.subset_append_left rs [r]

/-- After a relationship was added there is one with the text of its ends. -/
theorem exists_key_addRelationship (rs : List Relationship) (r : Relationship) :
    ∃ kept ∈ addRelationship rs r, kept.key = r.key := by
  unfold addRelationship
  split
  · rename_i hany
    obtain ⟨kept, hkept, hkey⟩ := List.any_eq_true.mp hany
    exact ⟨kept, hkept, eq_of_beq hkey⟩
  · exact ⟨r, List.mem_append_right rs List.mem_cons_self, rfl⟩

theorem subset_tryOne (r : Relationship) :
    s.relationships ⊆ (tryOne direction frontier symbolOf s r).relationships := by
  unfold tryOne
  split
  · exact List.Subset.refl _
  · split
    · exact List.Subset.refl _
    · exact subset_addRelationship s.relationships r

theorem subset_tryAll (rs : List Relationship) :
    s.relationships ⊆ (rs.foldl (tryOne direction frontier symbolOf) s).relationships := by
  induction rs generalizing s with
  | nil => exact List.Subset.refl _
  | cons r rs ih => exact fun x hx => ih (subset_tryOne r hx)

/-! ### What leads on is returned -/

/-- A relationship leads from the frontier to the id, and its text of ends is among those returned. -/
def LedTo (direction : TraversalDirection) (frontier : List String) (rs returned : List Relationship)
    (id : String) : Prop :=
  ∃ r ∈ rs, LeadsOn direction frontier r id ∧ ∃ kept ∈ returned, kept.key = r.key

theorem visited_tryOne (h : id ∈ (tryOne direction frontier symbolOf s r).visited) :
    id ∈ s.visited ∨ LedTo direction frontier [r] (tryOne direction frontier symbolOf s r).relationships id := by
  unfold tryOne at h ⊢
  split at h
  · exact .inl h
  · rename_i new hreached
    split at h
    · exact .inl h
    · rename_i hnew
      rcases List.mem_cons.mp h with rfl | h
      · rw [if_neg hnew]
        exact .inr ⟨r, List.mem_singleton_self r, leadsOn_of_reached? hreached, exists_key_addRelationship _ r⟩
      · exact .inl h

theorem visited_tryAll (h : id ∈ (rs.foldl (tryOne direction frontier symbolOf) s).visited) :
    id ∈ s.visited ∨
      LedTo direction frontier rs (rs.foldl (tryOne direction frontier symbolOf) s).relationships id := by
  induction rs generalizing s with
  | nil => exact .inl h
  | cons r rs ih =>
    rcases ih h with hfirst | ⟨m, hm, hleads, hkept⟩
    · rcases visited_tryOne hfirst with hold | ⟨m, hm, hleads, kept, hkept, hkey⟩
      · exact .inl hold
      · obtain rfl := List.mem_singleton.mp hm
        exact .inr ⟨m, List.mem_cons_self, hleads, kept, subset_tryAll rs hkept, hkey⟩
    · exact .inr ⟨m, List.mem_cons_of_mem r hm, hleads, hkept⟩

/-! ### Rounds -/

/-- The id lies one step beyond another, and a relationship between them has a text of ends that is returned. -/
def JoinedTo (direction : TraversalDirection) (candidates : List Relationship) (start : List String)
    (returned : List Relationship) (id : String) : Prop :=
  ∃ n a, ReachedAt (Linked direction candidates) start n a ∧ ReachedAt (Linked direction candidates) start (n + 1) id ∧
    ∃ r ∈ candidates, r.Leads direction a id ∧ ∃ kept ∈ returned, kept.key = r.key

theorem JoinedTo.mono {returned more : List Relationship} (h : JoinedTo direction candidates start returned id)
    (hmore : returned ⊆ more) : JoinedTo direction candidates start more id := by
  obtain ⟨n, a, ha, hid, r, hr, hleads, kept, hkept, hkey⟩ := h
  exact ⟨n, a, ha, hid, r, hr, hleads, kept, hmore hkept, hkey⟩

/-- All that was visited hangs together. -/
def Joined (direction : TraversalDirection) (candidates : List Relationship) (start : List String) (s : Reach) : Prop :=
  ∀ id ∈ s.visited, id ∈ start ∨ JoinedTo direction candidates start s.relationships id

/-- One round joins what it finds to the frontier. -/
theorem Joined.round (h : Joined direction candidates start s)
    (hexplored : Explored (Linked direction candidates) symbolOf matched start n found s)
    (hfrontier : IsFrontier (Linked direction candidates) start n frontier) :
    Joined direction candidates start
      (candidates.foldl (tryOne direction frontier symbolOf) { s with next := [] }) := by
  intro id hid
  obtain ⟨⟨_, hround⟩, -⟩ := hexplored.round hfrontier
  by_cases hold : id ∈ s.visited
  · exact (h id hold).imp_right fun hjoined => hjoined.mono (subset_tryAll (s := { s with next := [] }) candidates)
  · obtain ⟨r, hr, ⟨a, ha, hleads⟩, hkept⟩ := (visited_tryAll hid).resolve_left hold
    have hnew : ¬Within (Linked direction candidates) start n id := fun hnear => hold ((hexplored.visited id).mpr hnear)
    exact .inr ⟨n, a, (hfrontier a).mp ha, reachedAt_succ ((hround.visited id).mp hid) hnew, r, hr, hleads, hkept⟩

/-- All rounds do. -/
theorem Joined.steps (h : Joined direction candidates start s)
    (hexplored : Explored (Linked direction candidates) symbolOf matched start n found s)
    (hfrontier : IsFrontier (Linked direction candidates) start n frontier) (depth : Nat) :
    Joined direction candidates start (steps direction candidates symbolOf depth frontier s) := by
  induction depth generalizing n found frontier s with
  | zero => exact h
  | succ depth ih =>
    obtain ⟨⟨_, hround⟩, hnext⟩ := hexplored.round hfrontier
    have hjoined := h.round hexplored hfrontier
    rw [Reach.steps]
    split
    · exact hjoined
    · exact ih hjoined hround hnext

end Reach

/-! ### Searches -/

namespace Traversal

variable {t : Traversal} {matched : List Symbol} {selected all : List Relationship} {symbolOf : String → Option Symbol}
  {x : Relationship}

/-- How far a search from the matched symbols comes, on top of the selected relationships. -/
def search (t : Traversal) (matched : List Symbol) (selected all : List Relationship)
    (symbolOf : String → Option Symbol) : Reach :=
  let start := matched.map Symbol.id
  Reach.steps t.direction (all.filter t.follows) symbolOf t.radius start
    { visited := start, symbols := matched, relationships := selected.foldl Reach.addRelationship [] }

theorem follow_eq_search (t : Traversal) (matched : List Symbol) (selected all : List Relationship)
    (symbolOf : String → Option Symbol) :
    t.follow matched selected all symbolOf =
      ((t.search matched selected all symbolOf).symbols, (t.search matched selected all symbolOf).relationships) :=
  rfl

/-- What a search returns was selected or followed. -/
theorem mem_search (h : x ∈ (t.search matched selected all symbolOf).relationships) :
    x ∈ selected ++ all.filter t.follows :=
  List.mem_append.mpr ((Reach.mem_steps h).imp_left fun h =>
    (Reach.mem_addRelationships h).resolve_left List.not_mem_nil)

theorem search_joined (t : Traversal) (matched : List Symbol) (selected all : List Relationship)
    (symbolOf : String → Option Symbol) :
    Reach.Joined t.direction (all.filter t.follows) (matched.map Symbol.id)
      (t.search matched selected all symbolOf) := by
  let start := matched.map Symbol.id
  let first : Reach :=
    { visited := start, symbols := matched, relationships := selected.foldl Reach.addRelationship [] }
  have hjoined : Reach.Joined t.direction (all.filter t.follows) start first := fun id hid => .inl hid
  exact hjoined.steps (Reach.explored_start _ symbolOf matched _) (Reach.isFrontier_start _ start) t.radius

/-- Whatever was matched, selected and related, and however far, in which direction and along
which types a search goes: an id that it reaches, which was not matched, is one step farther
away than another from which a returned relationship leads to it. That relationship was
followed, or it is a selected one with the same ends as one that was followed, of whatever
type. This goes for every id for which the text of ends tells the ends of the relationships
that lead to it. -/
theorem reached_ids_are_joined (t : Traversal) (matched : List Symbol) (selected all : List Relationship)
    (symbolOf : String → Option Symbol) (id : String) (hid : id ∈ (t.search matched selected all symbolOf).visited) :
    let start := matched.map Symbol.id
    let followed := all.filter t.follows
    let returned := (t.follow matched selected all symbolOf).2
    id ∉ start → EndsToldAt t.direction followed (selected ++ followed) id →
      ∃ n a, ReachedAt (t.Linked all) start n a ∧ ReachedAt (t.Linked all) start (n + 1) id ∧
        ∃ r ∈ returned, r.Leads t.direction a id ∧
          (r ∈ followed ∨ r ∈ selected ∧ ∃ r' ∈ followed, r.sourceId = r'.sourceId ∧ r.targetId = r'.targetId) := by
  intro start followed returned hnew htold
  obtain ⟨n, a, ha, hreached, r, hr, hleads, kept, hkept, hkey⟩ :=
    (t.search_joined matched selected all symbolOf id hid).resolve_left hnew
  rw [t.linked_filter all] at ha hreached
  have hmem : kept ∈ selected ++ followed := mem_search hkept
  have hends := htold r hr a hleads kept hmem hkey
  have hreturned : kept ∈ returned := by
    show kept ∈ (t.follow matched selected all symbolOf).2
    rw [follow_eq_search]
    exact hkept
  refine ⟨n, a, ha, hreached, kept, hreturned, hleads.of_ends hends, ?_⟩
  rcases List.mem_append.mp hmem with hselected | hfollowed
  · exact .inr ⟨hselected, r, hr, hends⟩
  · exact .inl hfollowed

/-- A file for each of some ids. -/
def filesAt (ids : List String) : List Symbol := ids.map fun id => { (default : Symbol) with id, name := id }

/-- Only files with these ids have symbols. -/
def fileOf (ids : List String) (id : String) : Option Symbol := (filesAt ids).find? fun s => s.id == id

/-- One file uses another and calls it. -/
def usesAndCalls : List Relationship := [⟨"a", "b", .uses, {}⟩, ⟨"a", "b", .calls, {}⟩]

/-- Calls are followed from the second file against the call that leads there, with both relationships selected. -/
theorem caller_is_joined :
    let t : Traversal := { depth := 1, direction := .incoming, relationshipTypes := some [.calls] }
    let matched := filesAt ["b"]
    let followed := usesAndCalls.filter t.follows
    "a" ∈ (t.search matched usesAndCalls usesAndCalls (fileOf ["a", "b"])).visited ∧ "a" ∉ matched.map Symbol.id ∧
      EndsToldAt t.direction followed (usesAndCalls ++ followed) "a" ∧
      ∃ n a, ReachedAt (t.Linked usesAndCalls) (matched.map Symbol.id) n a ∧
        ReachedAt (t.Linked usesAndCalls) (matched.map Symbol.id) (n + 1) "a" ∧
        ∃ r ∈ (t.follow matched usesAndCalls usesAndCalls (fileOf ["a", "b"])).2, r.Leads t.direction a "a" ∧
          (r ∈ followed ∨ r ∈ usesAndCalls ∧ ∃ r' ∈ followed, r.sourceId = r'.sourceId ∧ r.targetId = r'.targetId) := by
  intro t matched followed
  have hvisited : "a" ∈ (t.search matched usesAndCalls usesAndCalls (fileOf ["a", "b"])).visited := by decide +kernel
  have hnew : "a" ∉ matched.map Symbol.id := by decide +kernel
  have hends : ∀ r ∈ usesAndCalls, r.sourceId = "a" ∧ r.targetId = "b" := by decide +kernel
  have htold : EndsToldAt t.direction followed (usesAndCalls ++ followed) "a" := by
    intro r hr a _ x hx _
    have hfollowed : ∀ y ∈ followed, y ∈ usesAndCalls := fun y hy => (List.mem_filter.mp hy).1
    obtain ⟨hsource, htarget⟩ := hends x ((List.mem_append.mp hx).elim id (hfollowed x))
    obtain ⟨hsource', htarget'⟩ := hends r (hfollowed r hr)
    exact ⟨hsource.trans hsource'.symm, htarget.trans htarget'.symm⟩
  exact ⟨hvisited, hnew, htold,
    t.reached_ids_are_joined matched usesAndCalls usesAndCalls (fileOf ["a", "b"]) "a" hvisited hnew htold⟩

/-- The relationship that is returned need not be of a followed type, so not every id that is
reached has one of these: from the first of two files, the selected use of the second is returned
in the place of the call that was followed. -/
theorem selected_type_stands_in :
    let calls : Traversal := { depth := 1, relationshipTypes := some [.calls] }
    let used := calls.follow (filesAt ["a"]) (usesAndCalls.take 1) usesAndCalls (fileOf ["a", "b"])
    (used.1.map Symbol.id = ["a", "b"] ∧ used.2.map Relationship.kind = [.uses]) ∧
      ¬ ∀ (t : Traversal) (matched : List Symbol) (selected all : List Relationship)
          (symbolOf : String → Option Symbol),
        ∀ id ∈ (t.search matched selected all symbolOf).visited, id ∉ matched.map Symbol.id →
          ∃ m n a, m < n ∧ ReachedAt (t.Linked all) (matched.map Symbol.id) m a ∧
            ReachedAt (t.Linked all) (matched.map Symbol.id) n id ∧
            ∃ r ∈ (t.follow matched selected all symbolOf).2, t.follows r = true ∧ r.Leads .both a id := by
  intro calls used
  refine ⟨by decide +kernel, fun h => ?_⟩
  obtain ⟨-, -, -, -, -, -, r, hr, hfollows, -⟩ :=
    h calls (filesAt ["a"]) (usesAndCalls.take 1) usesAndCalls (fileOf ["a", "b"]) "b" (by decide +kernel)
      (by decide +kernel)
  have hnone : ∀ r ∈ used.2, calls.follows r = false := by decide +kernel
  rw [hnone r hr] at hfollows
  exact Bool.false_ne_true hfollows

end Traversal

end CodeAtlas
