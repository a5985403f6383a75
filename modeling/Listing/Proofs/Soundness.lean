import Listing.Proofs.Keyed
import Listing.Proofs.Outcome
import Listing.Schema.Basic

namespace Listing

/-- The columns that a relation pairs are physical, each on its own side. -/
def Relation.IsDeclared (r : Relation) (e target : Entity) : Prop :=
  ∀ k ∈ r.joinColumns, e.hasColumn k.localColumn ∧ target.hasColumn k.referenced

namespace Schema

def Has (s : Schema) (e : Entity) : Prop := ∃ name, (name, e) ∈ s.entities

/-- What the check asks of a relation of an entity. -/
structure IsSoundRelation (s : Schema) (e : Entity) (r : Relation) (target : Entity) : Prop where
  leads : s.entity? r.target = some target
  paired : r.joinColumns ≠ []
  declared : r.joinTable = none → r.IsDeclared e target

structure IsSound (s : Schema) : Prop where
  keys : ∀ e, s.Has e → e.primaryKey ≠ []
  relations : ∀ e, s.Has e → ∀ r ∈ e.relations, ∃ target, s.IsSoundRelation e r target

variable {s : Schema} {e target : Entity} {r : Relation}

theorem pairProblem?_eq_none :
    pairProblem? e target r = none ↔ (r.joinTable = none → r.IsDeclared e target) := by
  rw [pairProblem?]
  cases r.joinTable with
  | some table => simp
  | none => simp [Relation.IsDeclared]

theorem relationProblem?_eq_none :
    s.relationProblem? e r = none ↔ ∃ target, s.IsSoundRelation e r target := by
  rw [relationProblem?]
  cases htarget : s.entity? r.target with
  | none =>
    refine iff_of_false (by simp) ?_
    rintro ⟨target, hleads, -, -⟩
    simp [htarget] at hleads
  | some target =>
    dsimp only
    constructor
    · intro h
      by_cases hnone : r.joinColumns = []
      · simp [hnone] at h
      · rw [if_neg (by simpa using hnone)] at h
        exact ⟨target, htarget, hnone, pairProblem?_eq_none.1 h⟩
    · rintro ⟨target', hleads, hpaired, hdeclared⟩
      obtain rfl : target = target' := Option.some.inj (htarget.symm.trans hleads)
      rw [if_neg (by simpa using hpaired)]
      exact pairProblem?_eq_none.2 hdeclared

theorem entityProblem?_eq_none : s.entityProblem? e = none ↔
    e.primaryKey ≠ [] ∧ ∀ r ∈ e.relations, ∃ target, s.IsSoundRelation e r target := by
  rw [entityProblem?]
  simp only [← relationProblem?_eq_none, ← List.findSome?_eq_none_iff]
  by_cases hkey : e.primaryKey = []
  · exact iff_of_false (by simp [hkey]) fun h ↦ h.1 hkey
  · rw [if_neg (by simpa using hkey)]
    exact ⟨fun h ↦ ⟨hkey, h⟩, fun h ↦ h.2⟩

theorem check_iff_isSound : s.check = .ok () ↔ s.IsSound := by
  have hproblem : s.problem? = none ↔ ∀ e, s.Has e →
      e.primaryKey ≠ [] ∧ ∀ r ∈ e.relations, ∃ target, s.IsSoundRelation e r target := by
    simp only [problem?, List.findSome?_eq_none_iff, ← entityProblem?_eq_none]
    exact ⟨fun h e ⟨name, he⟩ ↦ h (name, e) he, fun h entry he ↦ h entry.2 ⟨entry.1, he⟩⟩
  have hcheck : s.check = .ok () ↔ s.problem? = none := by
    rw [check]
    cases s.problem? <;> simp
  rw [hcheck, hproblem]
  constructor
  · exact fun h ↦ ⟨fun e he ↦ (h e he).1, fun e he ↦ (h e he).2⟩
  · exact fun h e he ↦ ⟨h.keys e he, h.relations e he⟩

end Schema

end Listing
