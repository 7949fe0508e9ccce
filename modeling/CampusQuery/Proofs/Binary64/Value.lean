import Mathlib
import CampusQuery.Binary64.Basic

/-!
# What a binary64 number stands for

A magnitude is an exponent and a significand, which stand for as many units as `Scaled.unitsOf_eq`
says. The next magnitude stands for more of them (`unitsOf_strictMono`), so only the two zeros have
their units in common (`eq_or_zero_of_units_eq`).

`value` reads the fields of a number as a rational, and `numeral` those of any number, the
infinities and NaNs too. Two numbers stand for the same exactly if they are the same or both of them
are a zero (`numeral_inj`).
-/

namespace CampusQuery.Binary64

theorem exponentStep_eq : exponentStep = 2 ^ 52 := rfl

/-- The exponent is a variable so that the power is left as it is. -/
theorem one_eq {k : Nat} (h : k = 1074) : one = 2 ^ k := by
  rw [one, ← h, Nat.one_shiftLeft]

theorem unitsOf_of_fields {magnitude exponent fraction : Nat}
    (he : magnitude / exponentStep = exponent) (hf : magnitude % exponentStep = fraction) :
    unitsOf magnitude =
      (if exponent = 0 then fraction else exponentStep + fraction) * 2 ^ (exponent - 1) := by
  subst he hf
  rw [unitsOf, Nat.shiftLeft_eq]

/-- An exponent and a significand that make up a magnitude. The significand has all its bits unless
the exponent is the least; it may have reached the next exponent. -/
structure Scaled (exponent significand : Nat) : Prop where
  normal : exponent = 0 ∨ exponentStep ≤ significand
  le : significand ≤ 2 * exponentStep

theorem Scaled.unitsOf_eq {exponent significand : Nat} (h : Scaled exponent significand) :
    unitsOf (exponent * exponentStep + significand) = significand * 2 ^ exponent := by
  obtain ⟨normal, le⟩ := h
  rw [exponentStep_eq] at *
  rcases Nat.lt_or_ge significand (2 ^ 52) with few | many
  · obtain rfl := normal.resolve_right (Nat.not_le.mpr few)
    have he : (0 * 2 ^ 52 + significand) / exponentStep = 0 := by
      rw [exponentStep_eq]
      omega
    have hf : (0 * 2 ^ 52 + significand) % exponentStep = significand := by
      rw [exponentStep_eq]
      omega
    rw [unitsOf_of_fields he hf]
    rfl
  rcases Nat.lt_or_eq_of_le le with within | reached
  · have he : (exponent * 2 ^ 52 + significand) / exponentStep = exponent + 1 := by
      rw [exponentStep_eq]
      omega
    have hf : (exponent * 2 ^ 52 + significand) % exponentStep = significand - 2 ^ 52 := by
      rw [exponentStep_eq]
      omega
    rw [unitsOf_of_fields he hf, if_neg (Nat.succ_ne_zero _), exponentStep_eq, Nat.add_sub_cancel,
      Nat.add_sub_cancel' many]
  · have he : (exponent * 2 ^ 52 + significand) / exponentStep = exponent + 2 := by
      rw [exponentStep_eq]
      omega
    have hf : (exponent * 2 ^ 52 + significand) % exponentStep = 0 := by
      rw [exponentStep_eq]
      omega
    rw [unitsOf_of_fields he hf, if_neg (Nat.succ_ne_zero _), Nat.add_zero, exponentStep_eq,
      reached, Nat.mul_comm 2, Nat.mul_assoc, ← Nat.pow_succ']
    rfl

/-- Every magnitude is an exponent and a significand that has not reached the next exponent. -/
theorem exists_scaled (magnitude : Nat) :
    ∃ exponent significand, magnitude = exponent * exponentStep + significand ∧
      Scaled exponent significand ∧ significand < 2 * exponentStep := by
  have positive : 0 < exponentStep := Nat.two_pow_pos 52
  have fraction := Nat.mod_lt magnitude positive
  rcases Nat.lt_or_ge magnitude exponentStep with few | many
  · exact ⟨0, magnitude, by omega, ⟨.inl rfl, by omega⟩, by omega⟩
  obtain ⟨exponent, next⟩ :=
    Nat.exists_eq_add_one_of_ne_zero (Nat.div_pos many positive).ne'
  have fields := Nat.div_add_mod' magnitude exponentStep
  generalize magnitude % exponentStep = rest at fields fraction
  rw [next, Nat.succ_mul, Nat.add_assoc] at fields
  exact ⟨exponent, exponentStep + rest, fields.symm, ⟨.inr (Nat.le_add_right _ _), by omega⟩,
    by omega⟩

theorem unitsOf_strictMono : StrictMono unitsOf := by
  refine strictMono_nat_of_lt_succ fun magnitude => ?_
  obtain ⟨exponent, significand, rfl, scaled, within⟩ := exists_scaled magnitude
  have next : Scaled exponent (significand + 1) :=
    ⟨scaled.normal.imp_right Nat.le_succ_of_le, within⟩
  rw [Nat.add_assoc, scaled.unitsOf_eq, next.unitsOf_eq]
  exact Nat.mul_lt_mul_of_pos_right (Nat.lt_succ_self _) (Nat.two_pow_pos _)

/-! ## Numbers -/

theorem natAbs_units (x : Binary64) : x.units.natAbs = unitsOf x.magnitude := by
  unfold units
  split <;> simp

theorem magnitude_eq_of_units {x y : Binary64} (same : x.units = y.units) :
    x.magnitude = y.magnitude := by
  refine Fin.ext (unitsOf_strictMono.injective ?_)
  rw [← natAbs_units, ← natAbs_units, same]

/-- Numbers of as many units are the same, or both of them are a zero. -/
theorem eq_or_zero_of_units_eq {x y : Binary64} (same : x.units = y.units) :
    x = y ∨ x.units = 0 ∧ y.units = 0 := by
  have magnitudes := magnitude_eq_of_units same
  by_cases signs : x.negative = y.negative
  · left
    cases x
    cases y
    cases signs
    cases magnitudes
    rfl
  · right
    have size := natAbs_units x
    have opposite : x.units = -y.units := by
      cases hx : x.negative <;> cases hy : y.negative <;> simp_all [units]
    omega

/-- The value of a finite number: its sign, its significand, and the power of two that its exponent
stands for. The least exponent is shared by the numbers without and with the leading one. -/
def value (x : Binary64) : ℚ :=
  let exponent := x.magnitude.val / 2 ^ 52
  let fraction := x.magnitude.val % 2 ^ 52
  (if x.negative then -1 else 1) * (if exponent = 0 then fraction else 2 ^ 52 + fraction : ℕ) *
    2 ^ ((max exponent 1 : ℕ) - 1075 : ℤ)

theorem cast_one : (one : ℚ) = 2 ^ (1074 : ℤ) := by
  rw [one_eq rfl, Nat.cast_pow, Nat.cast_two, ← zpow_natCast]
  rfl

theorem cast_one_ne_zero : (one : ℚ) ≠ 0 := Nat.cast_ne_zero.mpr one_pos.ne'

/-- The value is that of the units. -/
theorem value_eq (x : Binary64) : x.value = x.units / one := by
  have magnitude : (unitsOf x.magnitude : ℚ) / one =
      (if x.magnitude.val / 2 ^ 52 = 0 then x.magnitude.val % 2 ^ 52
        else 2 ^ 52 + x.magnitude.val % 2 ^ 52 : ℕ) *
        2 ^ ((max (x.magnitude.val / 2 ^ 52) 1 : ℕ) - 1075 : ℤ) := by
    have shift : ((max (x.magnitude.val / 2 ^ 52) 1 : ℕ) - 1075 : ℤ) =
        (x.magnitude.val / 2 ^ 52 - 1 : ℕ) - 1074 := by
      omega
    rw [shift, zpow_sub₀ two_ne_zero, zpow_natCast, ← mul_div_assoc, ← cast_one,
      unitsOf_of_fields rfl rfl, exponentStep_eq, Nat.cast_mul, Nat.cast_pow, Nat.cast_two]
  cases sign : x.negative <;>
    simp only [value, units, sign, Bool.false_eq_true, ↓reduceIte, Int.cast_neg, Int.cast_natCast,
      one_mul, neg_mul, neg_div, magnitude]

theorem value_inj {x y : Binary64} : x.value = y.value ↔ x.units = y.units := by
  rw [value_eq, value_eq, div_left_inj' cast_one_ne_zero, Int.cast_inj]

/-- A value is whole if the units are whole ones. -/
theorem value_eq_intCast {x : Binary64} {n : Int} : x.value = n ↔ x.units = n * one := by
  rw [value_eq, div_eq_iff cast_one_ne_zero]
  norm_cast

end CampusQuery.Binary64

namespace CampusQuery

/-- What a number stands for. NaNs are told apart by their bits. -/
inductive Numeral
  | rational (q : ℚ)
  | infinity (negative : Bool)
  | nan (bits : Nat)
  deriving DecidableEq

namespace Binary64

/-- What a binary64 number stands for. -/
def numeral (x : Binary64) : Numeral :=
  if x.isNaN then .nan x.toBits
  else if x.isInfinite then .infinity x.negative
  else .rational x.value

theorem isFinite_iff {x : Binary64} :
    x.isFinite = true ↔ x.isNaN = false ∧ x.isInfinite = false := by
  simp only [isFinite, isNaN, isInfinite, decide_eq_true_eq, decide_eq_false_iff_not]
  omega

theorem numeral_of_isFinite {x : Binary64} (finite : x.isFinite = true) :
    x.numeral = .rational x.value := by
  obtain ⟨nan, infinite⟩ := isFinite_iff.mp finite
  simp [numeral, nan, infinite]

theorem numeral_eq_rational {x : Binary64} {q : ℚ} :
    x.numeral = .rational q ↔ x.isFinite = true ∧ x.value = q := by
  rw [isFinite_iff, numeral]
  cases x.isNaN <;> cases x.isInfinite <;> simp

theorem numeral_eq_infinity {x : Binary64} {negative : Bool} :
    x.numeral = .infinity negative ↔ x = infinity negative := by
  rw [numeral]
  constructor
  · intro same
    split_ifs at same with nan infinite
    cases same
    rw [isInfinite, decide_eq_true_eq] at infinite
    cases x
    exact congrArg (Binary64.mk _) (Fin.ext infinite)
  · rintro rfl
    rfl

theorem numeral_eq_nan {x : Binary64} {bits : Nat} :
    x.numeral = .nan bits ↔ x.isNaN = true ∧ x.toBits = bits := by
  rw [numeral]
  cases x.isNaN <;> cases x.isInfinite <;> simp

/-- A number stands for a whole number if its units are whole ones. -/
theorem numeral_eq_intCast {x : Binary64} {n : Int} :
    x.numeral = .rational n ↔ x.isFinite = true ∧ x.units = n * one := by
  rw [numeral_eq_rational, value_eq_intCast]

theorem toInt?_eq_some {x : Binary64} {n : Int} :
    x.toInt? = some n ↔ x.numeral = .rational n := by
  have positive : (one : Int) ≠ 0 := Int.natCast_ne_zero.mpr one_pos.ne'
  rw [numeral_eq_intCast, toInt?, Option.ite_none_right_eq_some, Option.some_inj, and_assoc]
  refine and_congr_right fun _ => ⟨?_, ?_⟩
  · rintro ⟨whole, rfl⟩
    exact (Int.ediv_mul_cancel (Int.dvd_of_emod_eq_zero whole)).symm
  · intro units
    rw [units]
    exact ⟨Int.mul_emod_left _ _, Int.mul_ediv_cancel _ positive⟩

theorem isFinite_of_units_eq_zero {x : Binary64} (zero : x.units = 0) : x.isFinite = true := by
  have magnitude := natAbs_units x
  rw [zero, Int.natAbs_zero] at magnitude
  have least : x.magnitude.val = 0 := unitsOf_strictMono.injective magnitude.symm
  rw [isFinite, least]
  rfl

/-- Numbers stand for the same if they are the same, or both of them are a zero. -/
theorem numeral_inj {x y : Binary64} :
    x.numeral = y.numeral ↔ x = y ∨ x.units = 0 ∧ y.units = 0 := by
  constructor
  · intro same
    cases hx : x.numeral with
    | rational q =>
      obtain ⟨_, vx⟩ := numeral_eq_rational.mp hx
      obtain ⟨_, vy⟩ := numeral_eq_rational.mp (same.symm.trans hx)
      exact eq_or_zero_of_units_eq (value_inj.mp (vx.trans vy.symm))
    | infinity negative =>
      rw [numeral_eq_infinity.mp hx, numeral_eq_infinity.mp (same.symm.trans hx)]
      exact .inl rfl
    | nan bits =>
      obtain ⟨_, hxb⟩ := numeral_eq_nan.mp hx
      obtain ⟨_, hyb⟩ := numeral_eq_nan.mp (same.symm.trans hx)
      exact .inl (toBits_injective (hxb.trans hyb.symm))
  · rintro (rfl | ⟨hx, hy⟩)
    · rfl
    · rw [numeral_of_isFinite (isFinite_of_units_eq_zero hx),
        numeral_of_isFinite (isFinite_of_units_eq_zero hy), value_inj.mpr (hx.trans hy.symm)]

theorem numeral_eq_numeral {x y : Binary64} : x.numeral = y.numeral ↔ x.units = y.units := by
  rw [numeral_inj]
  exact ⟨fun same => same.elim (congrArg units) fun zero => zero.1.trans zero.2.symm,
    eq_or_zero_of_units_eq⟩

end Binary64

end CampusQuery
