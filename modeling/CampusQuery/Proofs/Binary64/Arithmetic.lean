import CampusQuery.Proofs.Binary64.Nearest

/-!
# Exact results, rounded once

A binary64 number `Rounds` a rational if it is the nearest one, a tie going to the even significand.
Rounding keeps order (`Rounds.mono`) and errs by at most 2⁻⁵⁴ of any power of two beyond the rational
(`Rounds.error_le`). The operations on finite numbers round what they give on values (`rounds_add`,
`rounds_mul`, `rounds_div`), and `rounds_round` is about the nearest whole number.
-/

namespace CampusQuery.Binary64

variable {x y : Binary64} {q r : ℚ}

/-- The number is the one nearest to a rational, except for the sign of zero. -/
def Rounds (x : Binary64) (q : ℚ) : Prop := x.units = (ofRat q).units

theorem unitsOf_zero : unitsOf 0 = 0 := by
  simp [unitsOf]

theorem roundUnits_zero : roundUnits 0 1 = 0 := by
  have kept := roundUnits_unitsOf Nat.one_pos (Nat.zero_le infinite)
  rwa [unitsOf_zero] at kept

/-- A quotient of units under a sign is a rational, whatever its terms are. -/
theorem rounds_ofUnits {negative : Bool} {num den : Nat} (pos : 0 < den)
    (size : |q| * one * den = num) (sign : if negative then q ≤ 0 else 0 ≤ q) :
    (ofUnits negative num den).Rounds q := by
  have cross : num * q.den = q.num.natAbs * one * den := by
    have cross : (num * q.den : ℚ) = q.num.natAbs * one * den := by
      rw [← size, ← abs_mul_den]
      ring
    exact_mod_cast cross
  have same : roundUnits num den = roundUnits (q.num.natAbs * one) q.den :=
    le_antisymm (roundUnits_le pos q.den_pos cross.le) (roundUnits_le q.den_pos pos cross.ge)
  rw [Rounds, units_ofRat, units_ofUnits, same]
  rcases lt_trichotomy q 0 with less | rfl | greater
  · cases negative with
    | true => rw [if_pos rfl, if_pos less]
    | false => exact absurd sign (not_le.mpr less)
  · have none : unitsOf (roundUnits ((0 : ℚ).num.natAbs * one) (0 : ℚ).den) = 0 := by
      rw [Rat.num_zero, Int.natAbs_zero, Nat.zero_mul, Rat.den_zero, roundUnits_zero,
        unitsOf_zero]
    rw [none]
    simp
  · cases negative with
    | true => exact absurd sign (not_le.mpr greater)
    | false => rw [if_neg Bool.false_ne_true, if_neg greater.not_gt]

theorem rounds_zero (zero : x.units = 0) : x.Rounds 0 := by
  rw [Rounds, units_ofRat, zero]
  simp [roundUnits_zero, unitsOf_zero]

theorem Rounds.neg (h : x.Rounds q) : (-x).Rounds (-q) := by
  have opposite : (ofUnits (!decide (q < 0)) (q.num.natAbs * one) q.den).Rounds (-q) := by
    refine rounds_ofUnits q.den_pos ?_ ?_
    · rw [abs_neg, mul_right_comm, abs_mul_den, Nat.cast_mul]
    · rcases lt_or_ge q 0 with less | greater
      · simpa [less] using less.le
      · simpa [greater.not_gt] using greater
  calc (-x).units = -x.units := x.units_neg
    _ = -(ofRat q).units := congrArg _ h
    _ = (ofUnits (!decide (q < 0)) (q.num.natAbs * one) q.den).units := (units_neg _).symm
    _ = (ofRat (-q)).units := opposite

theorem rounds_ofInt (n : Int) : (ofInt n).Rounds n := by
  rw [Rounds, ofInt_eq_ofRat]

theorem abs_value (x : Binary64) : |x.value| * one = x.units.natAbs := by
  have positive : (0 : ℚ) < one := Nat.cast_pos.mpr one_pos
  rw [value_eq, abs_div, abs_of_pos positive, div_mul_cancel₀ _ positive.ne', Nat.cast_natAbs,
    Int.cast_abs]

theorem sign_value (x : Binary64) : if x.negative then x.value ≤ 0 else 0 ≤ x.value := by
  have positive : (0 : ℚ) < one := Nat.cast_pos.mpr one_pos
  rw [value_eq, div_le_iff₀ positive, le_div_iff₀ positive, zero_mul, units]
  split
  · simp
  · simp

theorem Rounds.mono (hx : x.Rounds q) (hy : y.Rounds r) (le : q ≤ r) : x.units ≤ y.units := by
  rw [hx, hy]
  exact units_ofRat_mono le

theorem isFinite_of_units (same : x.units = y.units) : x.isFinite = y.isFinite := by
  rw [isFinite, isFinite, magnitude_eq_of_units same]

theorem Rounds.isNaN (h : x.Rounds q) : x.isNaN = false := by
  rw [Binary64.isNaN, magnitude_eq_of_units h]
  exact decide_eq_false (Nat.not_lt.mpr (Nat.min_le_left _ _))

/-- The distance to a rational, counted in parts of a unit. -/
theorem Rounds.abs_sub_mul (hx : x.Rounds q) :
    |q - x.value| * (one * q.den) =
      ((q.num.natAbs * one : ℕ) - unitsOf (roundUnits (q.num.natAbs * one) q.den) * q.den :
        ℤ).natAbs := by
  have scale : |(one * q.den : ℚ)| = one * q.den := abs_of_nonneg (by positivity)
  have own : x.value * (one * q.den) = x.units * q.den := by
    rw [value_eq, ← mul_assoc, div_mul_cancel₀ _ cast_one_ne_zero]
  have size : |(q.num : ℚ)| = |q| * q.den := by
    rw [abs_mul_den, Nat.cast_natAbs, Int.cast_abs]
  rw [← scale, ← abs_mul, sub_mul, own, hx, units_ofRat, Nat.cast_natAbs, Int.cast_abs]
  push_cast
  rw [size]
  split
  · rw [abs_of_neg ‹q < 0›, ← abs_neg]
    ring_nf
  · rw [abs_of_nonneg (not_lt.mp ‹¬q < 0›)]
    ring_nf

theorem Rounds.error_le {k : Nat} (hx : x.Rounds q) (less : |q| < 2 ^ k) (le : k < 1024) :
    x.isFinite = true ∧ |q - x.value| * 2 ^ 54 ≤ 2 ^ k := by
  obtain ⟨j, hj⟩ : ∃ j, j = 1021 := ⟨_, rfl⟩
  have units : (one : ℚ) = 2 ^ j * 2 ^ 53 := by
    rw [one_eq (show j + 53 = 1074 by omega), Nat.cast_pow, Nat.cast_two, pow_add]
  have den : (0 : ℚ) < q.den := Nat.cast_pos.mpr q.den_pos
  have few : q.num.natAbs * one < q.den * 2 ^ (k + j + 53) := by
    have few : (q.num.natAbs * one : ℚ) < q.den * 2 ^ (k + j + 53) := by
      rw [← abs_mul_den, pow_add, pow_add, units, mul_comm |q|, mul_assoc, mul_assoc]
      gcongr
    exact_mod_cast few
  obtain ⟨error, finite⟩ := two_mul_natAbs_sub_roundUnits_le q.den_pos few (by omega)
  refine ⟨(isFinite_of_units hx).trans (decide_eq_true finite), ?_⟩
  have error : (2 * (|q - x.value| * (one * q.den)) : ℚ) ≤ 2 ^ (k + j) * q.den := by
    rw [hx.abs_sub_mul]
    exact_mod_cast error
  rw [← mul_assoc, ← mul_assoc, mul_le_mul_iff_left₀ den, units, pow_add] at error
  refine le_of_mul_le_mul_right ?_ (by positivity : (0 : ℚ) < 2 ^ j)
  linarith

theorem ofNat_eq_ofInt (n : Nat) : ofNat n = ofInt n := by
  rw [ofNat, ofInt, Int.natAbs_natCast, decide_eq_false (by omega)]

theorem rounds_ofNat (n : Nat) : (ofNat n).Rounds n := by
  have same := rounds_ofInt n
  rwa [← ofNat_eq_ofInt, Int.cast_natCast] at same

/-- What rounds a small whole number is that number. -/
theorem Rounds.exact {x : Binary64} {n : Nat} (h : x.Rounds n) (le : n ≤ 2 ^ 53) :
    x.isFinite = true ∧ x.value = n := by
  have le : (n : Int).natAbs ≤ 2 ^ 53 := le
  have same : x.units = (ofInt n).units := by
    rw [h, ← Int.cast_natCast, ← ofInt_eq_ofRat]
  refine ⟨(isFinite_of_units same).trans (isFinite_ofInt_of_le le), ?_⟩
  exact_mod_cast value_eq_intCast.mpr (same.trans (units_ofInt_of_le le))

/-! ## Operations -/

/-- The sign of a product is negative if one of the signs is. -/
theorem sign_mul {negative negative' : Bool} (hq : if negative then q ≤ 0 else 0 ≤ q)
    (hr : if negative' then r ≤ 0 else 0 ≤ r) :
    if negative != negative' then q * r ≤ 0 else 0 ≤ q * r := by
  cases negative with
  | false =>
    cases negative' with
    | false => exact mul_nonneg hq hr
    | true => exact mul_nonpos_of_nonneg_of_nonpos hq hr
  | true =>
    cases negative' with
    | false => exact mul_nonpos_of_nonpos_of_nonneg hq hr
    | true => exact mul_nonneg_of_nonpos_of_nonpos hq hr

section Operations

variable (hx : x.isFinite = true) (hy : y.isFinite = true)

include hx hy

theorem rounds_add : (x + y).Rounds (x.value + y.value) := by
  obtain ⟨xNumber, xFinite⟩ := isFinite_iff.mp hx
  obtain ⟨yNumber, yFinite⟩ := isFinite_iff.mp hy
  have positive : (0 : ℚ) < one := Nat.cast_pos.mpr one_pos
  have value : x.value + y.value = (x.units + y.units : ℤ) / one := by
    rw [value_eq, value_eq, ← add_div, Int.cast_add]
  change (add x y).Rounds _
  simp only [add, xNumber, yNumber, xFinite, yFinite, Bool.or_self, Bool.false_eq_true, if_false]
  rw [value]
  generalize x.units + y.units = sum
  split
  · rename_i zero
    rw [zero, Int.cast_zero, zero_div]
    exact rounds_zero (by simp [signedZero, Binary64.units, unitsOf_zero])
  · refine rounds_ofUnits Nat.one_pos ?_ ?_
    · rw [abs_div, abs_of_pos positive, div_mul_cancel₀ _ positive.ne', Nat.cast_one, mul_one,
        Nat.cast_natAbs, Int.cast_abs]
    · rw [div_le_iff₀ positive, le_div_iff₀ positive, zero_mul]
      split
      · rename_i negative
        exact Int.cast_nonpos.mpr (of_decide_eq_true negative).le
      · rename_i nonnegative
        exact Int.cast_nonneg (not_lt.mp fun less => nonnegative (decide_eq_true less))

theorem rounds_mul : (x * y).Rounds (x.value * y.value) := by
  obtain ⟨xNumber, xFinite⟩ := isFinite_iff.mp hx
  obtain ⟨yNumber, yFinite⟩ := isFinite_iff.mp hy
  change (mul x y).Rounds _
  simp only [mul, xNumber, yNumber, xFinite, yFinite, Bool.or_self, Bool.false_eq_true, if_false]
  refine rounds_ofUnits one_pos ?_ (sign_mul x.sign_value y.sign_value)
  rw [Nat.cast_mul, ← abs_value, ← abs_value, abs_mul]
  ring

theorem rounds_div (nonzero : y.value ≠ 0) : (x / y).Rounds (x.value / y.value) := by
  obtain ⟨xNumber, xFinite⟩ := isFinite_iff.mp hx
  obtain ⟨yNumber, yFinite⟩ := isFinite_iff.mp hy
  have units : y.units.natAbs ≠ 0 := fun zero => nonzero <| by
    rw [value_eq, Int.natAbs_eq_zero.mp zero, Int.cast_zero, zero_div]
  have zero : y.isZero = false := by
    refine decide_eq_false fun least => units ?_
    rw [natAbs_units, least, unitsOf_zero]
  have sign : if y.negative then y.value⁻¹ ≤ 0 else 0 ≤ y.value⁻¹ := by
    simpa only [inv_nonpos, inv_nonneg] using y.sign_value
  change (div x y).Rounds _
  simp only [div, xNumber, yNumber, xFinite, yFinite, zero, Bool.or_self, Bool.false_eq_true,
    if_false]
  refine rounds_ofUnits (Nat.pos_of_ne_zero units) ?_ (sign_mul x.sign_value sign)
  rw [Nat.cast_mul, ← abs_value, ← abs_value, abs_div]
  field_simp

omit hy

/-- A number that is close to a whole one is rounded to it. -/
theorem rounds_round {n : ℤ} (close : |x.value - n| * 2 < 1) : x.round.Rounds n := by
  have positive : (0 : ℚ) < one := Nat.cast_pos.mpr one_pos
  have size : |(n : ℚ)| = n.natAbs := by rw [Nat.cast_natAbs, Int.cast_abs]
  have rounded : divRound .awayFromZero x.units.natAbs one = n.natAbs := by
    have upper := two_mul_divRound_le .awayFromZero x.units.natAbs one
    have lower := two_mul_le_divRound .awayFromZero (n := x.units.natAbs) one_pos
    generalize divRound .awayFromZero x.units.natAbs one = m at upper lower
    have upper : (2 * (one * m) : ℚ) ≤ 2 * (|x.value| * one) + one := by
      rw [abs_value]
      exact_mod_cast upper
    have lower : (2 * (|x.value| * one) : ℚ) ≤ 2 * (one * m) + one := by
      rw [abs_value]
      exact_mod_cast lower
    have above := abs_sub_abs_le_abs_sub x.value n
    have below := abs_sub_abs_le_abs_sub (n : ℚ) x.value
    rw [abs_sub_comm] at below
    rw [size] at above below
    have less : m < n.natAbs + 1 := by
      have less : (m : ℚ) < n.natAbs + 1 := by nlinarith
      exact_mod_cast less
    have greater : n.natAbs < m + 1 := by
      have greater : (n.natAbs : ℚ) < m + 1 := by nlinarith
      exact_mod_cast greater
    omega
  rw [round, if_pos hx, rounded]
  refine rounds_ofUnits Nat.one_pos (by rw [size]; push_cast; ring) ?_
  have sign := x.sign_value
  obtain ⟨above, below⟩ := abs_lt.mp (lt_div_iff₀ two_pos |>.mpr close)
  split <;> rename_i negative
  · rw [if_pos negative] at sign
    have less : n < 1 := by
      have less : (n : ℚ) < 1 := by linarith
      exact_mod_cast less
    exact_mod_cast Int.lt_add_one_iff.mp less
  · rw [if_neg negative] at sign
    have greater : -1 < n := by
      have greater : (-1 : ℚ) < n := by linarith
      exact_mod_cast greater
    exact_mod_cast Int.add_one_le_iff.mpr greater

end Operations

end CampusQuery.Binary64
