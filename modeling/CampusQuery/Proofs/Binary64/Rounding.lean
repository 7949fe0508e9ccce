import CampusQuery.Binary64.Arithmetic
import CampusQuery.Proofs.Binary64.Value
import CampusQuery.Proofs.Rounding

/-!
# Rounding to binary64

`roundUnits` keeps the order of what it rounds (`roundUnits_le`) and keeps what is a binary64 number
already (`roundUnits_unitsOf`). So the binary64 number nearest to a rational keeps order
(`units_ofRat_mono`). That of a whole number is the number itself if there is one
(`units_ofInt_of_units`), as there is for all whole numbers up to 2⁵³ (`units_ofInt_of_le`).
-/

namespace CampusQuery.Binary64

/-- The exponent of the magnitude that a number of units is rounded to. -/
def exponentOf (units : Nat) : Nat := units.log2 - 52

theorem exponentOf_mono {units units' : Nat} (le : units ≤ units') :
    exponentOf units ≤ exponentOf units' := by
  rw [exponentOf, exponentOf, Nat.log2_eq_log_two, Nat.log2_eq_log_two]
  exact Nat.sub_le_sub_right (Nat.log_mono_right le) 52

theorem div_exponentOf_lt (units : Nat) : units / 2 ^ exponentOf units < 2 ^ 53 := by
  rw [Nat.div_lt_iff_lt_mul (Nat.two_pow_pos _), ← Nat.pow_add]
  refine Nat.lt_log2_self.trans_le (Nat.pow_le_pow_right Nat.two_pos ?_)
  rw [exponentOf]
  omega

theorem le_div_exponentOf {units : Nat} (large : exponentOf units ≠ 0) :
    2 ^ 52 ≤ units / 2 ^ exponentOf units := by
  rw [exponentOf] at *
  have positive : units ≠ 0 := by
    rintro rfl
    exact large rfl
  rw [Nat.le_div_iff_mul_le (Nat.two_pow_pos _), ← Nat.pow_add,
    Nat.add_sub_cancel' (by omega)]
  exact Nat.log2_self_le positive

theorem roundUnits_eq (num den : Nat) :
    ∃ exponent significand, exponent = exponentOf (num / den) ∧
      significand = divRound .toEven num (den * 2 ^ exponent) ∧
      roundUnits num den = min infinite (exponent * exponentStep + significand) ∧
      Scaled exponent significand := by
  refine ⟨_, _, rfl, rfl, ?_, ?_⟩
  · rw [roundUnits, exponentOf, Nat.shiftLeft_eq]
  · have quotient : num / (den * 2 ^ exponentOf (num / den)) =
        num / den / 2 ^ exponentOf (num / den) :=
      (Nat.div_div_eq_div_mul _ _ _).symm
    have lower := div_le_divRound .toEven num (den * 2 ^ exponentOf (num / den))
    have upper := divRound_le_div_succ .toEven num (den * 2 ^ exponentOf (num / den))
    rw [quotient] at lower upper
    have few := div_exponentOf_lt (num / den)
    constructor
    · refine Classical.or_iff_not_imp_left.mpr fun large => ?_
      exact (le_div_exponentOf large).trans lower
    · rw [exponentStep_eq]
      omega

theorem Scaled.mono {exponent significand exponent' significand' : Nat}
    (h : Scaled exponent significand) (h' : Scaled exponent' significand')
    (less : exponent < exponent') :
    exponent * exponentStep + significand ≤ exponent' * exponentStep + significand' := by
  have many := h'.normal.resolve_left (Nat.ne_zero_of_lt less)
  calc exponent * exponentStep + significand
      ≤ exponent * exponentStep + 2 * exponentStep := Nat.add_le_add_left h.le _
    _ = (exponent + 1) * exponentStep + exponentStep := by ring
    _ ≤ exponent' * exponentStep + significand' :=
      Nat.add_le_add (Nat.mul_le_mul_right _ less) many

theorem roundUnits_mono {num num' : Nat} (le : num ≤ num') (den : Nat) :
    roundUnits num den ≤ roundUnits num' den := by
  obtain ⟨exponent, significand, he, hs, rounded, scaled⟩ := roundUnits_eq num den
  obtain ⟨exponent', significand', he', hs', rounded', scaled'⟩ := roundUnits_eq num' den
  rw [rounded, rounded']
  refine min_le_min_left infinite ?_
  have exponents : exponent ≤ exponent' := by
    rw [he, he']
    exact exponentOf_mono (Nat.div_le_div_right le)
  rcases Nat.lt_or_eq_of_le exponents with less | rfl
  · exact scaled.mono scaled' less
  · rw [hs, hs']
    exact Nat.add_le_add_left (divRound_mono _ le _) _

theorem roundUnits_mul_right {c : Nat} (pos : 0 < c) (num den : Nat) :
    roundUnits (num * c) (den * c) = roundUnits num den := by
  have shift (exponent : Nat) : (den * c) <<< exponent = den <<< exponent * c := by
    rw [Nat.shiftLeft_eq, Nat.shiftLeft_eq, Nat.mul_right_comm]
  simp only [roundUnits, Nat.mul_div_mul_right _ _ pos, shift, divRound_mul_right _ pos]

/-- Rounding keeps the order of quotients. -/
theorem roundUnits_le {num den num' den' : Nat} (pos : 0 < den) (pos' : 0 < den')
    (le : num * den' ≤ num' * den) : roundUnits num den ≤ roundUnits num' den' :=
  calc roundUnits num den = roundUnits (num * den') (den * den') :=
        (roundUnits_mul_right pos' _ _).symm
    _ ≤ roundUnits (num' * den) (den * den') := roundUnits_mono le _
    _ = roundUnits (num' * den) (den' * den) := by rw [Nat.mul_comm den]
    _ = roundUnits num' den' := roundUnits_mul_right pos _ _

/-- The exponent of a magnitude is found again. -/
theorem exponentOf_of_scaled {exponent significand : Nat} (h : Scaled exponent significand)
    (within : significand < 2 * exponentStep) :
    exponentOf (significand * 2 ^ exponent) = exponent := by
  obtain ⟨normal, _⟩ := h
  rw [exponentStep_eq, ← Nat.pow_succ'] at *
  rcases Nat.lt_or_ge significand (2 ^ 52) with few | many
  · obtain rfl := normal.resolve_right (Nat.not_le.mpr few)
    rw [exponentOf, Nat.log2_eq_log_two, Nat.pow_zero, Nat.mul_one]
    have bits := Nat.log_mono_right few.le (b := 2)
    rw [Nat.log_pow Nat.one_lt_two] at bits
    omega
  · have positive : significand * 2 ^ exponent ≠ 0 := by positivity
    have bits : (significand * 2 ^ exponent).log2 = 52 + exponent := by
      rw [Nat.log2_eq_iff positive, Nat.pow_add, Nat.add_right_comm, Nat.pow_add]
      exact ⟨Nat.mul_le_mul_right _ many, Nat.mul_lt_mul_of_pos_right within (Nat.two_pow_pos _)⟩
    rw [exponentOf, bits, Nat.add_sub_cancel_left]

theorem roundUnits_unitsOf {magnitude den : Nat} (positive : 0 < den) (le : magnitude ≤ infinite) :
    roundUnits (den * unitsOf magnitude) den = magnitude := by
  obtain ⟨exponent, significand, rfl, scaled, within⟩ := exists_scaled magnitude
  have quotient : den * (significand * 2 ^ exponent) = den * 2 ^ exponent * significand := by ring
  rw [roundUnits, scaled.unitsOf_eq, Nat.mul_div_cancel_left _ positive,
    ← exponentOf, exponentOf_of_scaled scaled within, Nat.shiftLeft_eq, quotient,
    divRound_mul_left _ (Nat.mul_pos positive (Nat.two_pow_pos _)), min_eq_right le]

/-- A significand of few bits times a power of two is a magnitude. -/
theorem exists_unitsOf_eq (exponent : Nat) {significand : Nat}
    (le : significand ≤ 2 * exponentStep) :
    ∃ magnitude, unitsOf magnitude = significand * 2 ^ exponent ∧
      magnitude ≤ (exponent + 2) * exponentStep := by
  induction exponent generalizing significand with
  | zero =>
    have scaled : Scaled 0 significand := ⟨.inl rfl, le⟩
    exact ⟨_, scaled.unitsOf_eq, by omega⟩
  | succ exponent ih =>
    rcases Nat.lt_or_ge significand exponentStep with few | many
    · obtain ⟨magnitude, units, bound⟩ := @ih (2 * significand) (by omega)
      refine ⟨magnitude, ?_, bound.trans (Nat.mul_le_mul_right _ (by omega))⟩
      rw [units, Nat.pow_succ']
      ring
    · have scaled : Scaled (exponent + 1) significand := ⟨.inr many, le⟩
      exact ⟨_, scaled.unitsOf_eq, by rw [Nat.add_mul _ 2]; omega⟩

/-! ## Rationals -/

/-- The number nearest to a rational. -/
def ofRat (q : ℚ) : Binary64 := ofRatio (q < 0) q.num.natAbs q.den

theorem abs_mul_den (q : ℚ) : |q| * q.den = q.num.natAbs := by
  have den : |(q.den : ℚ)| = q.den := abs_of_nonneg (Nat.cast_nonneg _)
  rw [← den, ← abs_mul, Rat.mul_den_eq_num, Nat.cast_natAbs, Int.cast_abs]

theorem units_ofUnits (negative : Bool) (num den : Nat) :
    (ofUnits negative num den).units =
      if negative then -(unitsOf (roundUnits num den) : Int) else unitsOf (roundUnits num den) :=
  rfl

theorem units_ofRat (q : ℚ) :
    (ofRat q).units =
      if q < 0 then -(unitsOf (roundUnits (q.num.natAbs * one) q.den) : Int)
      else unitsOf (roundUnits (q.num.natAbs * one) q.den) := by
  rw [ofRat, ofRatio, units_ofUnits]
  simp only [decide_eq_true_eq]

theorem units_ofRat_mono {q r : ℚ} (le : q ≤ r) : (ofRat q).units ≤ (ofRat r).units := by
  have grows {q r : ℚ} (le : |q| ≤ |r|) :
      unitsOf (roundUnits (q.num.natAbs * one) q.den) ≤
        unitsOf (roundUnits (r.num.natAbs * one) r.den) := by
    refine unitsOf_strictMono.monotone (roundUnits_le q.den_pos r.den_pos ?_)
    have cross : (q.num.natAbs * one * r.den : ℚ) ≤ r.num.natAbs * one * q.den :=
      calc (q.num.natAbs * one * r.den : ℚ) = |q| * (q.den * one * r.den) := by
            rw [← abs_mul_den]
            ring
        _ ≤ |r| * (q.den * one * r.den) := mul_le_mul_of_nonneg_right le (by positivity)
        _ = r.num.natAbs * one * q.den := by
            rw [← abs_mul_den]
            ring
    exact_mod_cast cross
  rw [units_ofRat, units_ofRat]
  split <;> split
  · have := @grows r q (by rw [abs_of_neg ‹q < 0›, abs_of_neg ‹r < 0›]; linarith)
    omega
  · omega
  · linarith
  · have := @grows q r (by rwa [abs_of_nonneg (by linarith), abs_of_nonneg (by linarith)])
    omega

theorem exists_unitsOf_whole {n : Nat} (le : n ≤ 2 ^ 53) :
    ∃ magnitude, magnitude < infinite ∧ unitsOf magnitude = n * one := by
  obtain ⟨magnitude, units, bound⟩ := exists_unitsOf_eq 1074 (le : n ≤ 2 * exponentStep)
  refine ⟨magnitude, bound.trans_lt ?_, units.trans (congrArg (n * ·) (one_eq rfl).symm)⟩
  exact Nat.mul_lt_mul_of_pos_right (by decide) (Nat.two_pow_pos 52)

theorem ofInt_eq_ofRat (n : Int) : ofInt n = ofRat n := by
  simp [ofInt, ofRat]

theorem isNaN_ofInt (n : Int) : (ofInt n).isNaN = false := by
  have le : (ofInt n).magnitude.val ≤ infinite := Nat.min_le_left _ _
  simpa [isNaN] using le

/-- The units of the number nearest to a whole number: those of its size, under its sign. -/
theorem units_ofInt (n : Int) :
    (ofInt n).units =
      if n < 0 then -(unitsOf (roundUnits (n.natAbs * one) 1) : Int)
      else unitsOf (roundUnits (n.natAbs * one) 1) := by
  simp [ofInt, ofRatio, ofUnits, units]

theorem units_ofInt_mono {m n : Int} (le : m ≤ n) : (ofInt m).units ≤ (ofInt n).units := by
  rw [ofInt_eq_ofRat, ofInt_eq_ofRat]
  exact units_ofRat_mono (Int.cast_le.mpr le)

/-- A whole number that is a binary64 number is its own nearest one. -/
theorem units_ofInt_of_unitsOf {n : Int} {magnitude : Nat} (le : magnitude ≤ infinite)
    (exact : unitsOf magnitude = n.natAbs * one) : (ofInt n).units = n * one := by
  have rounded := roundUnits_unitsOf Nat.one_pos le
  rw [Nat.one_mul, exact] at rounded
  rw [units_ofInt, rounded, exact]
  split
  · rw [Nat.cast_mul, ← Int.neg_mul]
    congr 1
    omega
  · rw [Nat.cast_mul]
    congr 1
    omega

theorem units_ofInt_of_units {n : Int} {x : Binary64} (number : x.isNaN = false)
    (exact : x.units = n * one) : (ofInt n).units = x.units := by
  have le : x.magnitude.val ≤ infinite := by simpa [isNaN] using number
  rw [exact]
  refine units_ofInt_of_unitsOf le ?_
  rw [← natAbs_units, exact, Int.natAbs_mul, Int.natAbs_natCast]

theorem units_ofInt_of_le {n : Int} (le : n.natAbs ≤ 2 ^ 53) : (ofInt n).units = n * one := by
  obtain ⟨magnitude, finite, units⟩ := exists_unitsOf_whole le
  exact units_ofInt_of_unitsOf finite.le units

theorem isFinite_ofInt_of_le {n : Int} (le : n.natAbs ≤ 2 ^ 53) : (ofInt n).isFinite = true := by
  obtain ⟨magnitude, finite, units⟩ := exists_unitsOf_whole le
  have rounded := roundUnits_unitsOf Nat.one_pos finite.le
  rw [Nat.one_mul, units] at rounded
  exact decide_eq_true (rounded.trans_lt finite)

/-- Only zero is rounded to zero. -/
theorem units_ofInt_eq_zero {n : Int} : (ofInt n).units = 0 ↔ n = 0 := by
  have positive : (0 : Int) < one := Int.natCast_pos.mpr one_pos
  have above : (ofInt 1).units = 1 * one := units_ofInt_of_le (by decide)
  have below : (ofInt (-1)).units = -1 * one := units_ofInt_of_le (by decide)
  constructor
  · intro zero
    rcases lt_trichotomy n 0 with less | same | greater
    · have grows := units_ofInt_mono (show n ≤ -1 from Int.le_sub_one_of_lt less)
      omega
    · exact same
    · have grows := units_ofInt_mono (show 1 ≤ n from greater)
      omega
  · rintro rfl
    rw [units_ofInt_of_le (by decide), Int.zero_mul]

theorem eq_ofInt_of_units {n : Int} {x : Binary64} (same : (ofInt n).units = x.units)
    (nonzero : n ≠ 0) : ofInt n = x :=
  (eq_or_zero_of_units_eq same).resolve_right fun zero => nonzero (units_ofInt_eq_zero.mp zero.1)

end CampusQuery.Binary64
