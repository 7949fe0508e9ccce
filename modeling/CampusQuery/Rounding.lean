/-!
# Rounding a quotient

`divRound tie n d` is the whole number nearest to `n / d`; `tie` says which of two equally near
numbers is taken.

* `two_mul_divRound_le`, `two_mul_le_divRound`: the rounded quotient is within half a unit.
* `divRound_mul_left`: a quotient that is whole is kept.
* `divRound_le_self`: dividing by two or more never grows.
-/

namespace CampusQuery

/-- Where a value half-way between two neighbours goes. -/
inductive Tie
  | toEven
  | awayFromZero
  deriving DecidableEq, Repr

/-- The whole number nearest to `n / d`, for a positive `d`. -/
def divRound (tie : Tie) (n d : Nat) : Nat :=
  let q := n / d
  let twice := 2 * (n % d)
  if twice < d ∨ (twice = d ∧ tie = .toEven ∧ q % 2 = 0) then q else q + 1

theorem div_le_divRound (tie : Tie) (n d : Nat) : n / d ≤ divRound tie n d := by
  unfold divRound
  dsimp only
  split <;> omega

theorem divRound_le_div_succ (tie : Tie) (n d : Nat) : divRound tie n d ≤ n / d + 1 := by
  unfold divRound
  dsimp only
  split <;> omega

/-- The rounded quotient is at most half a unit too large. -/
theorem two_mul_divRound_le (tie : Tie) (n d : Nat) :
    2 * (d * divRound tie n d) ≤ 2 * n + d := by
  have h := Nat.div_add_mod n d
  unfold divRound
  dsimp only
  split
  · omega
  · rw [Nat.mul_add]
    omega

/-- The rounded quotient is at most half a unit too small. -/
theorem two_mul_le_divRound (tie : Tie) {n d : Nat} (hd : 0 < d) :
    2 * n ≤ 2 * (d * divRound tie n d) + d := by
  have h := Nat.div_add_mod n d
  have hr := Nat.mod_lt n hd
  unfold divRound
  dsimp only
  split
  · omega
  · rw [Nat.mul_add]
    omega

theorem divRound_mul_left (tie : Tie) {d : Nat} (hd : 0 < d) (q : Nat) :
    divRound tie (d * q) d = q := by
  simp [divRound, Nat.mul_div_cancel_left q hd, hd]

theorem divRound_one (tie : Tie) (n : Nat) : divRound tie n 1 = n := by
  simpa using divRound_mul_left tie Nat.one_pos n

theorem divRound_le_self (tie : Tie) {n d : Nat} (hd : 2 ≤ d) : divRound tie n d ≤ n := by
  have h := Nat.div_add_mod n d
  have hq : 2 * (n / d) ≤ d * (n / d) := Nat.mul_le_mul_right _ hd
  unfold divRound
  dsimp only
  split <;> omega

end CampusQuery
