import CodeAtlas.Query.Reach
import Mathlib.Data.List.Basic

/-! Where the relationships of a search come from. -/
namespace CodeAtlas

namespace Reach

variable {direction : TraversalDirection} {symbolOf : String → Option Symbol} {candidates : List Relationship}
  {s : Reach} {r x : Relationship}

theorem mem_addRelationship {rs : List Relationship} (h : x ∈ addRelationship rs r) : x ∈ rs ∨ x = r := by
  unfold addRelationship at h
  split at h
  · exact .inl h
  · exact (List.mem_append.mp h).imp_right List.mem_singleton.mp

theorem mem_addRelationships {rs ms : List Relationship} (h : x ∈ ms.foldl addRelationship rs) : x ∈ rs ∨ x ∈ ms := by
  induction ms generalizing rs with
  | nil => exact .inl h
  | cons m ms ih =>
    rcases ih h with h | h
    · exact (mem_addRelationship h).imp_right fun hm => by rw [hm]; exact List.mem_cons_self
    · exact .inr (List.mem_cons_of_mem m h)

theorem mem_tryOne {frontier : List String} (h : x ∈ (tryOne direction frontier symbolOf s r).relationships) :
    x ∈ s.relationships ∨ x = r := by
  unfold tryOne at h
  split at h
  · exact .inl h
  · split at h
    · exact .inl h
    · exact mem_addRelationship h

theorem mem_tryAll {frontier : List String} {rs : List Relationship}
    (h : x ∈ (rs.foldl (tryOne direction frontier symbolOf) s).relationships) : x ∈ s.relationships ∨ x ∈ rs := by
  induction rs generalizing s with
  | nil => exact .inl h
  | cons m rs ih =>
    rcases ih h with h | h
    · exact (mem_tryOne h).imp_right fun hm => by rw [hm]; exact List.mem_cons_self
    · exact .inr (List.mem_cons_of_mem m h)

theorem mem_steps {depth : Nat} {frontier : List String}
    (h : x ∈ (steps direction candidates symbolOf depth frontier s).relationships) :
    x ∈ s.relationships ∨ x ∈ candidates := by
  induction depth generalizing frontier s with
  | zero => exact .inl h
  | succ depth ih =>
    unfold steps at h
    dsimp only at h
    split at h
    · exact mem_tryAll (s := { s with next := [] }) h
    · exact (ih h).elim (fun h => mem_tryAll (s := { s with next := [] }) h) .inr

/-- With nothing to follow, nothing is added. -/
theorem steps_nil (depth : Nat) (frontier : List String) :
    (steps direction [] symbolOf depth frontier s).symbols = s.symbols ∧
      (steps direction [] symbolOf depth frontier s).relationships = s.relationships := by
  cases depth <;> exact ⟨rfl, rfl⟩

end Reach

namespace Traversal

theorem mem_follow {t : Traversal} {matched : List Symbol} {ms all : List Relationship}
    {symbolOf : String → Option Symbol} {x : Relationship} (h : x ∈ (t.follow matched ms all symbolOf).2) :
    x ∈ ms ∨ x ∈ all := by
  rcases Reach.mem_steps h with h | h
  · exact .inl ((Reach.mem_addRelationships h).resolve_left List.not_mem_nil)
  · exact .inr (List.mem_filter.mp h).1

theorem follow_nil (t : Traversal) (symbolOf : String → Option Symbol) : t.follow [] [] [] symbolOf = ([], []) := by
  have h := fun s => @Reach.steps_nil t.direction symbolOf s t.depth.toInt.toNat []
  exact Prod.ext (h _).1 (h _).2

end Traversal

end CodeAtlas
