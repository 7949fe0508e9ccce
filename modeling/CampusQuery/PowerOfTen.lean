/-!
# Powers of ten
-/

namespace CampusQuery

/-- The `k`-th power of ten. -/
def pow10 (k : Nat) : Nat := Nat.pow 10 k

theorem pow10_zero : pow10 0 = 1 := rfl

theorem pow10_succ (k : Nat) : pow10 (k + 1) = pow10 k * 10 := rfl

theorem pow10_add (j k : Nat) : pow10 (j + k) = pow10 j * pow10 k := Nat.pow_add 10 j k

theorem pow10_pos (k : Nat) : 0 < pow10 k := Nat.pow_pos (by decide)

theorem two_le_pow10 {k : Nat} (hk : 0 < k) : 2 ≤ pow10 k := by
  obtain ⟨j, rfl⟩ := Nat.exists_eq_add_one_of_ne_zero (Nat.ne_of_gt hk)
  have := pow10_pos j
  rw [pow10_succ]
  omega

end CampusQuery
