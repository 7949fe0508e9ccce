import CampusQuery.Query.Defect

/-!
# Apply keys

The keys that a query's apply rules declare, in their order. They are pairwise different, none is
empty, and none holds an underscore, so that none can be mistaken for a qualified field.
-/

namespace CampusQuery

structure ApplyKeys where
  toList : List String
  nodup : toList.Nodup
  proper : ∀ key ∈ toList, key ≠ "" ∧ '_' ∉ key.toList

namespace ApplyKeys

def empty : ApplyKeys := ⟨[], by simp, by simp⟩

instance : Membership String ApplyKeys := ⟨fun keys key => key ∈ keys.toList⟩

instance (key : String) (keys : ApplyKeys) : Decidable (key ∈ keys) :=
  inferInstanceAs (Decidable (key ∈ keys.toList))

/-- Declares a further key. -/
def declare (keys : ApplyKeys) (key : String) : Except Defect ApplyKeys :=
  if empty : key = "" then .error .emptyApplyKey
  else if qualified : '_' ∈ key.toList then .error (.qualifiedApplyKey key)
  else if known : key ∈ keys.toList then .error (.repeatedApplyKey key)
  else
    .ok
      { toList := keys.toList ++ [key]
        nodup := by
          rw [List.nodup_append]
          exact ⟨keys.nodup, by simp, by
            rintro a ha b hb rfl
            simp only [List.mem_singleton] at hb
            exact known (hb ▸ ha)⟩
        proper := by
          intro other h
          rcases List.mem_append.mp h with h | h
          · exact keys.proper other h
          · obtain rfl := List.mem_singleton.mp h
            exact ⟨empty, qualified⟩ }

/-- A key can be declared if it is proper and new, and then comes last. -/
theorem declare_eq_ok {keys extended : ApplyKeys} {key : String} :
    keys.declare key = .ok extended ↔
      key ≠ "" ∧ '_' ∉ key.toList ∧ key ∉ keys.toList ∧
        extended.toList = keys.toList ++ [key] := by
  unfold declare
  constructor
  · intro h
    split at h
    · simp at h
    · split at h
      · simp at h
      · split at h
        · simp at h
        · next h₁ h₂ h₃ =>
          cases h
          exact ⟨h₁, h₂, h₃, rfl⟩
  · rintro ⟨h₁, h₂, h₃, h₄⟩
    cases extended
    simp_all

end ApplyKeys

end CampusQuery
