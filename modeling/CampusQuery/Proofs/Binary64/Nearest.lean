import CampusQuery.Proofs.Binary64.Rounding

/-!
# The nearest binary64 number

Rounding takes the nearest magnitude (`roundUnits_near`). It errs by half a unit of the last place
at the most (`two_mul_natAbs_sub_roundUnits_le`), and gives a magnitude back if the error is small
against that magnitude (`roundUnits_eq_of_close`), for magnitudes are never closer together than
2⁻⁵³ of their size (`unitsOf_le_gap`).
-/

namespace CampusQuery.Binary64

variable {num den magnitude : Nat}

/-- Two magnitudes are apart by 2⁻⁵³ of the greater one or more. -/
theorem unitsOf_le_gap {lower upper : Nat} (less : lower < upper) :
    (unitsOf upper : Int) ≤ 2 ^ 53 * (unitsOf upper - unitsOf lower) := by
  obtain ⟨below, rfl⟩ := Nat.exists_eq_add_one_of_ne_zero (Nat.ne_zero_of_lt less)
  obtain ⟨exponent, significand, rfl, scaled, within⟩ := exists_scaled below
  have next : Scaled exponent (significand + 1) :=
    ⟨scaled.normal.imp_right Nat.le_succ_of_le, within⟩
  have first := unitsOf_strictMono.monotone (Nat.le_of_lt_succ less)
  rw [scaled.unitsOf_eq] at first
  rw [Nat.add_assoc, next.unitsOf_eq]
  have size : (significand + 1) * 2 ^ exponent ≤ 2 ^ 53 * 2 ^ exponent :=
    Nat.mul_le_mul_right _ within
  generalize 2 ^ exponent = step at *
  rw [Nat.succ_mul] at *
  push_cast
  omega

/-- A quotient has all bits that its exponent is chosen for, unless the exponent is the least. -/
theorem two_pow_le_of_exponentOf (large : exponentOf (num / den) ≠ 0) :
    2 ^ 52 * 2 ^ exponentOf (num / den) * den ≤ num := by
  have quotient := le_div_exponentOf large
  rw [Nat.le_div_iff_mul_le (Nat.two_pow_pos _)] at quotient
  exact (Nat.mul_le_mul_right den quotient).trans (Nat.div_mul_le_self num den)

/-- The exponent is a variable so that the power is left as it is. -/
theorem unitsOf_infinite {k : Nat} (h : k = 2046) : unitsOf infinite = 2 ^ 52 * 2 ^ k := by
  have scaled : Scaled k exponentStep := ⟨.inr le_rfl, by omega⟩
  have fields : infinite = k * exponentStep + exponentStep := by
    rw [infinite, ← Nat.succ_mul, h]
  rw [fields, scaled.unitsOf_eq, exponentStep_eq]

/-- No magnitude is nearer to a quotient than the rounded one. -/
theorem roundUnits_near (pos : 0 < den) (num : Nat) (le : magnitude ≤ infinite) :
    (num - unitsOf (roundUnits num den) * den : Int).natAbs ≤
      (num - unitsOf magnitude * den : Int).natAbs := by
  obtain ⟨exponent, significand, he, hs, rounded, scaled⟩ := roundUnits_eq num den
  have near (k : Int) := divRound_near .toEven (Nat.mul_pos pos (Nat.two_pow_pos exponent)) num k
  have reached := @two_pow_le_of_exponentOf num den
  rw [← he] at reached
  rw [← hs] at near
  rcases Nat.lt_or_ge infinite (exponent * exponentStep + significand) with beyond | within
  -- The quotient is no less than the infinity, which no other magnitude exceeds.
  · rw [rounded, min_eq_left beyond.le]
    obtain ⟨k, hk⟩ : ∃ k, k = 2046 := ⟨_, rfl⟩
    have large : k ≤ exponent := by
      have le := scaled.le
      rw [infinite, exponentStep_eq] at *
      omega
    have first : unitsOf magnitude * den ≤ unitsOf infinite * den :=
      Nat.mul_le_mul_right _ (unitsOf_strictMono.monotone le)
    have second : unitsOf infinite * den ≤ num := by
      refine le_trans ?_ (reached (by omega))
      rw [unitsOf_infinite hk]
      exact Nat.mul_le_mul_right _ (Nat.mul_le_mul_left _ (Nat.pow_le_pow_right Nat.two_pos large))
    zify at first second
    omega
  · rw [rounded, min_eq_right within, scaled.unitsOf_eq]
    obtain ⟨exponent', significand', rfl, scaled', _⟩ := exists_scaled magnitude
    rw [scaled'.unitsOf_eq]
    have same (k : Int) : k * (den * 2 ^ exponent : Nat) = k * 2 ^ exponent * den := by
      push_cast
      ring
    simp only [same] at near
    push_cast
    rcases Nat.lt_or_ge exponent' exponent with smaller | larger
    -- The magnitude is no greater than one with the exponent of the quotient, which is not greater
    -- than the quotient.
    · refine (near (2 ^ 52)).trans ?_
      have first : significand' * 2 ^ exponent' ≤ 2 ^ 52 * 2 ^ exponent :=
        calc significand' * 2 ^ exponent' ≤ 2 * exponentStep * 2 ^ exponent' :=
              Nat.mul_le_mul_right _ scaled'.le
          _ = 2 ^ 52 * 2 ^ (exponent' + 1) := by rw [exponentStep_eq, Nat.pow_succ]; ring
          _ ≤ 2 ^ 52 * 2 ^ exponent :=
            Nat.mul_le_mul_left _ (Nat.pow_le_pow_right Nat.two_pos smaller)
      have second := Nat.mul_le_mul_right den first
      have third := reached (Nat.ne_zero_of_lt smaller)
      zify at second third
      omega
    · obtain ⟨rest, rfl⟩ := Nat.exists_eq_add_of_le larger
      rw [pow_add, mul_comm (2 ^ exponent : Int), ← mul_assoc (significand' : Int)]
      exact near _

/-- The error is at most half a unit of the last place. -/
theorem two_mul_natAbs_sub_roundUnits_le (pos : 0 < den) {k : Nat} (few : num < den * 2 ^ (k + 53))
    (le : k < 2045) :
    2 * (num - unitsOf (roundUnits num den) * den : Int).natAbs ≤ 2 ^ k * den ∧
      roundUnits num den < infinite := by
  obtain ⟨exponent, significand, he, hs, rounded, scaled⟩ := roundUnits_eq num den
  have small : exponent ≤ k := by
    have bits : num / den < 2 ^ (k + 53) := Nat.div_lt_of_lt_mul few
    rw [he, exponentOf]
    rcases Nat.eq_zero_or_pos (num / den) with zero | positive
    · rw [zero]
      exact Nat.zero_le _
    · have := (Nat.log2_lt positive.ne').mpr bits
      omega
  have finite : exponent * exponentStep + significand < infinite :=
    calc exponent * exponentStep + significand ≤ exponent * exponentStep + 2 * exponentStep :=
          Nat.add_le_add_left scaled.le _
      _ = (exponent + 2) * exponentStep := (Nat.add_mul _ _ _).symm
      _ < infinite := Nat.mul_lt_mul_of_pos_right (by omega) (Nat.two_pow_pos 52)
  rw [rounded, min_eq_right finite.le, scaled.unitsOf_eq]
  refine ⟨?_, finite⟩
  have upper := two_mul_divRound_le .toEven num (den * 2 ^ exponent)
  have lower := two_mul_le_divRound .toEven (n := num) (Nat.mul_pos pos (Nat.two_pow_pos exponent))
  have unit : 2 ^ exponent * den ≤ 2 ^ k * den :=
    Nat.mul_le_mul_right _ (Nat.pow_le_pow_right Nat.two_pos small)
  have same : den * 2 ^ exponent * significand = significand * 2 ^ exponent * den := by ring
  rw [← hs, same, Nat.mul_comm den] at upper lower
  rw [← Nat.cast_mul]
  omega

/-- A quotient that is close to a magnitude is rounded to it. -/
theorem roundUnits_eq_of_close (pos : 0 < den) (le : magnitude ≤ infinite)
    (close : 2 ^ 54 * (num - unitsOf magnitude * den : Int).natAbs < unitsOf magnitude * den) :
    roundUnits num den = magnitude := by
  have near := roundUnits_near pos num le
  rcases lt_trichotomy (roundUnits num den) magnitude with less | same | greater
  · have gap := mul_le_mul_of_nonneg_right (unitsOf_le_gap less) (Int.natCast_nonneg den)
    rw [mul_assoc, sub_mul] at gap
    omega
  · exact same
  · have gap := mul_le_mul_of_nonneg_right (unitsOf_le_gap greater) (Int.natCast_nonneg den)
    rw [mul_assoc, sub_mul] at gap
    omega

end CampusQuery.Binary64
