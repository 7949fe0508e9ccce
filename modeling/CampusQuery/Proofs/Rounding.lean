import Mathlib
import CampusQuery.Rounding

/-!
# Rounded quotients

A rounded quotient keeps order (`divRound_mono`), depends only on the value of the quotient
(`divRound_mul_right`) and is as near as any whole number (`divRound_near`), wherever ties go.
-/

namespace CampusQuery

theorem divRound_mono (tie : Tie) {n n' : Nat} (le : n ≤ n') (d : Nat) :
    divRound tie n d ≤ divRound tie n' d := by
  rcases Nat.lt_or_eq_of_le (Nat.div_le_div_right (c := d) le) with less | same
  · calc divRound tie n d ≤ n / d + 1 := divRound_le_div_succ tie n d
      _ ≤ n' / d := less
      _ ≤ divRound tie n' d := div_le_divRound tie n' d
  · have parts := Nat.div_add_mod n d
    have parts' := Nat.div_add_mod n' d
    have rest : n % d ≤ n' % d := by
      rw [← same] at parts'
      omega
    unfold divRound
    grind

theorem divRound_mul_right (tie : Tie) {c : Nat} (pos : 0 < c) (n d : Nat) :
    divRound tie (n * c) (d * c) = divRound tie n d := by
  have twice : 2 * (n * c % (d * c)) = 2 * (n % d) * c := by
    rw [Nat.mul_mod_mul_right, Nat.mul_assoc]
  simp only [divRound, twice, Nat.mul_div_mul_right _ _ pos, Nat.mul_lt_mul_right pos,
    Nat.mul_left_inj pos.ne']

/-- Multiples of a number are at least that number apart. -/
theorem mul_add_le_mul {i j : Int} (less : i < j) (d : Nat) : i * d + d ≤ j * d := by
  rw [← add_one_mul]
  exact mul_le_mul_of_nonneg_right less (Int.natCast_nonneg d)

/-- No other multiple is nearer to a number than its rounded quotient. -/
theorem divRound_near (tie : Tie) {d : Nat} (hd : 0 < d) (n : Nat) (k : Int) :
    (n - divRound tie n d * d : Int).natAbs ≤ (n - k * d).natAbs := by
  have upper := two_mul_divRound_le tie n d
  have lower := two_mul_le_divRound tie (n := n) hd
  rw [mul_comm d] at upper lower
  generalize divRound tie n d = q at upper lower ⊢
  zify at upper lower
  rcases lt_trichotomy k q with less | rfl | greater
  · have gap := mul_add_le_mul less d
    omega
  · exact le_rfl
  · have gap := mul_add_le_mul greater d
    omega

end CampusQuery
