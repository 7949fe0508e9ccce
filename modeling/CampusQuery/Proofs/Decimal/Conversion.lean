import CampusQuery.Proofs.Binary64.Arithmetic
import CampusQuery.Proofs.Binary64.Shortest
import CampusQuery.Proofs.Decimal.Quotient

/-!
# Decimals and binary64 numbers

The decimal of a binary64 number is rounded back to that number (`rounds_of_ofBinary64?`). The
binary64 number of a decimal is the nearest one if the decimal is whole, or else has two places at
the most and is not beyond 2⁴⁵ (`rounds_toBinary64`). A larger one may miss it: the whole part and
the fraction are joined by operations each of which rounds, and a large whole part leaves too few
bits for the places.
-/

namespace CampusQuery

open Binary64 (Rounds ofRat)

namespace Binary64

/-! ## Joining a whole part and a fraction -/

/-- The errors of a quotient, a sum and a product on the way to a whole number do not reach a half
if the product has not many more bits than the places take. -/
theorem abs_sub_lt_half {whole rest scale quotient sum product : ℚ} (pos : 0 < scale)
    (few : scale ≤ 100) (quotientError : |rest / scale - quotient| * 2 ^ 54 ≤ 2 ^ 0)
    (sumError : |whole + quotient - sum| * 2 ^ 54 ≤ 2 ^ 45)
    (productError : |sum * scale - product| * 2 ^ 54 ≤ 2 ^ 52) :
    |product - (whole * scale + rest)| * 2 < 1 := by
  have total : whole * scale + rest - product = (sum * scale - product) +
      (whole + quotient - sum) * scale + (rest / scale - quotient) * scale := by
    rw [sub_mul (rest / scale), div_mul_cancel₀ _ pos.ne']
    ring
  have first := abs_add_three (sum * scale - product) ((whole + quotient - sum) * scale)
    ((rest / scale - quotient) * scale)
  rw [abs_mul, abs_mul, abs_of_pos pos] at first
  have second : |whole + quotient - sum| * scale ≤ |whole + quotient - sum| * 100 :=
    mul_le_mul_of_nonneg_left few (abs_nonneg _)
  have third : |rest / scale - quotient| * scale ≤ |rest / scale - quotient| * 100 :=
    mul_le_mul_of_nonneg_left few (abs_nonneg _)
  rw [abs_sub_comm, total]
  linarith

/-- A whole part and a fraction are joined without an error that the last rounding could not undo,
as long as the whole part is not too large. -/
theorem rounds_join {whole rest scale : Nat} (small : whole < 2 ^ 45) (fraction : rest < scale)
    (places : scale ≤ 100) :
    (((ofNat whole + ofNat rest / ofNat scale) * ofNat scale).round / ofNat scale).Rounds
      ((whole * scale + rest : ℕ) / scale) := by
  obtain ⟨wholeFinite, wholeValue⟩ := (rounds_ofNat whole).exact (by omega)
  obtain ⟨restFinite, restValue⟩ := (rounds_ofNat rest).exact (by omega)
  obtain ⟨scaleFinite, scaleValue⟩ := (rounds_ofNat scale).exact (by omega)
  have pos : (0 : ℚ) < scale := Nat.cast_pos.mpr (by omega)
  have nonzero : (ofNat scale).value ≠ 0 := scaleValue ▸ pos.ne'
  have few : (scale : ℚ) ≤ 100 := by exact_mod_cast places
  have nonneg : (0 : ℚ) ≤ rest / scale := by positivity
  have less : (rest / scale : ℚ) ≤ 99 / 100 := by
    have fraction : (rest : ℚ) + 1 ≤ scale := by exact_mod_cast fraction
    rw [div_le_iff₀ pos]
    linarith
  have below : (whole : ℚ) + 1 ≤ 2 ^ 45 := by exact_mod_cast small
  have above : (0 : ℚ) ≤ whole := Nat.cast_nonneg whole
  have quotient := rounds_div restFinite scaleFinite nonzero
  rw [restValue, scaleValue] at quotient
  obtain ⟨quotientFinite, quotientError⟩ := quotient.error_le (k := 0)
    (by rw [abs_of_nonneg nonneg]; linarith) (by decide)
  obtain ⟨lower, upper⟩ := abs_le.mp (le_div_iff₀ (by positivity) |>.mpr quotientError)
  have sum := rounds_add wholeFinite quotientFinite
  rw [wholeValue] at sum
  obtain ⟨sumFinite, sumError⟩ := sum.error_le (k := 45)
    (abs_lt.mpr (by constructor <;> linarith)) (by decide)
  obtain ⟨lower', upper'⟩ := abs_le.mp (le_div_iff₀ (by positivity) |>.mpr sumError)
  have product := rounds_mul sumFinite scaleFinite
  rw [scaleValue] at product
  have bound : |(ofNat whole + ofNat rest / ofNat scale).value * scale| < 2 ^ 52 := by
    rw [abs_mul, abs_of_pos pos]
    calc _ ≤ (2 ^ 45 + 1) * (100 : ℚ) := by
          refine mul_le_mul (abs_le.mpr ?_) few pos.le (by norm_num)
          constructor <;> linarith
      _ < 2 ^ 52 := by norm_num
  obtain ⟨productFinite, productError⟩ := product.error_le bound (by decide)
  have room : whole * scale + rest ≤ 2 ^ 53 := by
    have shifted : whole * scale ≤ whole * 100 := Nat.mul_le_mul_left _ places
    omega
  have close := abs_sub_lt_half pos few quotientError sumError productError
  have size : (((whole * scale + rest : ℕ) : ℤ) : ℚ) = whole * scale + rest := by push_cast; rfl
  rw [← size] at close
  have rounded := rounds_round productFinite close
  rw [Int.cast_natCast] at rounded
  obtain ⟨roundFinite, roundValue⟩ := rounded.exact room
  have joined := rounds_div roundFinite scaleFinite nonzero
  rwa [roundValue, scaleValue] at joined

end Binary64

namespace Decimal

variable {d : Decimal}

theorem parts_of_of? {coefficient : Int} {places : Nat} (found : of? coefficient places = some d) :
    d.coefficient = coefficient ∧ d.places = places := by
  rw [of?, Option.dite_none_right_eq_some] at found
  obtain ⟨_, found⟩ := found
  obtain rfl := Option.some_inj.mp found
  exact ⟨rfl, rfl⟩

theorem abs_value (d : Decimal) : |d.value| = d.coefficient.natAbs / pow10 d.places := by
  have power : (0 : ℚ) < 10 ^ d.places := by positivity
  rw [value, abs_div, abs_of_pos power, cast_pow10, Nat.cast_natAbs, Int.cast_abs]

theorem value_of_of? {negative : Bool} {size places : Nat}
    (found : of? (if negative then -(size : Int) else size) places = some d) :
    |d.value| * pow10 places = size ∧ if negative then d.value ≤ 0 else 0 ≤ d.value := by
  obtain ⟨coefficient, rfl⟩ := parts_of_of? found
  have power : (0 : ℚ) < pow10 d.places := Nat.cast_pos.mpr (pow10_pos _)
  rw [abs_value, div_mul_cancel₀ _ power.ne', value, ← cast_pow10, div_le_iff₀ power,
    le_div_iff₀ power, zero_mul, coefficient]
  cases negative <;> simp

/-- The decimal of digits that need not be rounded. -/
theorem value_of_ofDigits? {negative : Bool} {digits : Binary64.Digits}
    (found : ofDigits? negative digits = some d) (few : d.places < maxPlaces) :
    |d.value| * digits.ratio.2 = digits.ratio.1 ∧
      if negative then d.value ≤ 0 else 0 ≤ d.value := by
  unfold ofDigits? at found
  extract_lets signed places at found
  unfold Binary64.Digits.ratio
  split at found
  · rename_i whole
    rw [if_pos whole]
    exact value_of_of? found
  split at found
  · rename_i fraction _
    rw [if_neg fraction]
    exact value_of_of? found
  · exact absurd (parts_of_of? found).2 few.ne

/-- A decimal that has the digits of a number is rounded to that number. -/
theorem rounds_of_ofDigits? {x : Binary64} (nonzero : x.isZero = false) (finite : x.isFinite = true)
    (found : ofDigits? x.negative (Binary64.shortest .awayFromZero x.magnitude) = some d)
    (few : d.places < maxPlaces) : x.Rounds d.value := by
  obtain ⟨size, sign⟩ := value_of_ofDigits? found few
  have positive : 0 < x.magnitude.val := Nat.pos_of_ne_zero (of_decide_eq_false nonzero)
  have read := Binary64.magnitude_shortest .awayFromZero positive (of_decide_eq_true finite).le
  generalize Binary64.shortest .awayFromZero x.magnitude = digits at size read
  have pos : 0 < digits.ratio.2 := by
    unfold Binary64.Digits.ratio
    split
    · exact Nat.one_pos
    · exact pow10_pos _
  have units : |d.value| * Binary64.one * digits.ratio.2 =
      (digits.ratio.1 * Binary64.one : ℕ) := by
    rw [mul_right_comm, size, Nat.cast_mul]
  have rounded := Binary64.rounds_ofUnits pos units sign
  rw [Rounds, Binary64.units_ofUnits, ← Binary64.Digits.magnitude, read] at rounded
  exact rounded

/-- Scaled bits are never less than the bits. -/
theorem le_scaleBits {bits : Nat} (many : 10 ≤ bits) (exponent : Nat) :
    bits ≤ scaleBits bits exponent := by
  induction exponent generalizing bits with
  | zero => exact le_rfl
  | succ exponent ih =>
    rw [scaleBits]
    split
    · have := @ih (2 * bits) (by omega)
      omega
    · rename_i full
      rw [capacity] at full
      have := @ih (bits / 5) (by omega)
      omega

/-- Bits are scaled without loss, unless there is no room for the last doubling. -/
theorem scaleBits_eq {bits exponent : Nat} (many : 10 ≤ bits)
    (fits : scaleBits bits exponent < capacity) :
    scaleBits bits exponent = bits * 2 ^ exponent ∨
      capacity ≤ bits * 2 ^ exponent ∧ bits * 2 ^ exponent ≤ scaleBits bits exponent + 8 := by
  induction exponent generalizing bits with
  | zero => exact .inl (Nat.mul_one bits).symm
  | succ exponent ih =>
    rw [scaleBits] at fits ⊢
    split at fits
    · rename_i room
      rw [if_pos room, Nat.pow_succ', Nat.mul_left_comm, ← Nat.mul_assoc]
      exact ih (by omega) fits
    · rename_i full
      rw [if_neg full]
      rw [capacity] at full fits ⊢
      cases exponent with
      | zero =>
        rw [scaleBits] at fits ⊢
        omega
      | succ exponent =>
        -- A doubling or another division would leave the range.
        exfalso
        rw [scaleBits] at fits
        split at fits
        · have := @le_scaleBits (2 * (bits / 5)) (by omega) exponent
          omega
        · have := @le_scaleBits (bits / 5 / 5) (by omega) exponent
          omega

/-- A decimal that is made of the bits of a number is whole and is rounded to that number. -/
theorem rounds_of_ofBits? {x : Binary64} (finite : x.isFinite = true)
    (found : ofBits? x = some d) : d.places = 0 ∧ x.Rounds d.value := by
  unfold ofBits? at found
  extract_lets exponent fraction size at found
  split at found
  · cases found
  rename_i whole
  obtain ⟨coefficient, places⟩ := parts_of_of? found
  obtain ⟨value, sign⟩ := value_of_of? found
  have fits : size < capacity := by
    have small := d.coefficient_lt
    rw [coefficient] at small
    split at small <;> omega
  rw [pow10_zero, Nat.cast_one, mul_one] at value
  have units : Binary64.unitsOf x.magnitude =
      (Binary64.exponentStep + fraction) * 2 ^ (exponent - 1075) * Binary64.one := by
    rw [@Binary64.unitsOf_of_fields _ exponent fraction rfl rfl,
      if_neg (by omega), Binary64.one_eq rfl, Nat.mul_assoc, ← Nat.pow_add]
    congr 2
    omega
  have bits : 10 ≤ Binary64.exponentStep + fraction := by
    rw [Binary64.exponentStep_eq]
    omega
  have large := le_scaleBits bits (exponent - 1075)
  have scaled := scaleBits_eq bits fits
  generalize (Binary64.exponentStep + fraction) * 2 ^ (exponent - 1075) = exact at units scaled
  have near : 2 ^ 54 * (size - exact : Int).natAbs < exact := by
    have full : capacity = 2 ^ 96 := rfl
    omega
  have close : 2 ^ 54 * ((size * Binary64.one : ℕ) - Binary64.unitsOf x.magnitude * (1 : ℕ) :
      Int).natAbs < Binary64.unitsOf x.magnitude * 1 := by
    rw [units, Nat.mul_one, Nat.cast_one, mul_one, Nat.cast_mul, Nat.cast_mul, ← Int.sub_mul,
      Int.natAbs_mul, Int.natAbs_natCast, ← Nat.mul_assoc]
    exact Nat.mul_lt_mul_of_pos_right near Binary64.one_pos
  have rounded := @Binary64.rounds_ofUnits _ _ (size * Binary64.one) 1 Nat.one_pos
    (by rw [value, Nat.cast_one, mul_one, Nat.cast_mul]) sign
  rw [Rounds, Binary64.units_ofUnits, Binary64.roundUnits_eq_of_close Nat.one_pos
    (of_decide_eq_true finite).le close] at rounded
  exact ⟨places, rounded⟩

/-- The decimal of a number is rounded to that number. -/
theorem rounds_of_ofBinary64? {x : Binary64} (found : ofBinary64? x = some d)
    (few : d.places < maxPlaces) : x.Rounds d.value := by
  unfold ofBinary64? at found
  split at found
  · rename_i zero
    obtain rfl := Option.some_inj.mp found
    have none : x.units.natAbs = 0 := by
      rw [Binary64.natAbs_units, of_decide_eq_true zero, Binary64.unitsOf_zero]
    rw [value, Decimal.zero, Int.cast_zero, zero_div]
    exact Binary64.rounds_zero (Int.natAbs_eq_zero.mp none)
  split at found
  · rename_i nonzero finite
    rcases Option.or_eq_some_iff.mp found with digits | ⟨-, bits⟩
    · exact rounds_of_ofDigits? (Bool.eq_false_iff.mpr nonzero) finite digits few
    · exact (rounds_of_ofBits? finite bits).2
  · cases found

theorem hasPlaces_zero_iff : HasPlaces 0 d.value ↔ d.coefficient.natAbs % pow10 d.places = 0 := by
  have whole : HasPlaces 0 d.value ↔ ∃ m, d.toInt? = some m := by
    simp only [toInt?_eq_some, HasPlaces, pow_zero, mul_one]
  rw [whole, toInt?]
  simp only [Option.ite_none_right_eq_some, exists_and_left, Option.some_inj, exists_eq', and_true]
  rw [← Int.dvd_iff_emod_eq_zero, ← Nat.dvd_iff_mod_eq_zero, Int.natCast_dvd]

/-- The number of a decimal that is whole, or that has two places and is not too large, is the
nearest one. -/
theorem rounds_toBinary64 (few : d.places ≤ 2) (size : HasPlaces 0 d.value ∨ |d.value| ≤ 2 ^ 45) :
    d.toBinary64.Rounds d.value := by
  have parts := Nat.div_add_mod' d.coefficient.natAbs (pow10 d.places)
  have pos := pow10_pos d.places
  unfold toBinary64
  extract_lets size' power whole scale joined
  have rounded : joined.Rounds |d.value| := by
    rw [abs_value, ← parts]
    by_cases exact : size' % power = 0
    · rw [exact, Nat.add_zero, Nat.cast_mul, mul_div_cancel_right₀ _ (by positivity)]
      simp only [joined, if_pos exact]
      exact Binary64.rounds_ofNat _
    · have bound := size.resolve_left (mt hasPlaces_zero_iff.mp exact)
      simp only [joined, if_neg exact]
      refine Binary64.rounds_join ?_ (Nat.mod_lt _ pos) ?_
      · rw [abs_value, div_le_iff₀ (Nat.cast_pos.mpr pos)] at bound
        have bound : size' ≤ 2 ^ 45 * power := by exact_mod_cast bound
        refine Nat.div_lt_of_lt_mul (lt_of_le_of_ne (Nat.mul_comm _ _ ▸ bound) fun same => exact ?_)
        rw [same, Nat.mul_mod_right]
      · exact Nat.pow_le_pow_right (by decide) few
  split
  · rename_i negative
    have sign : d.value < 0 := div_neg_of_neg_of_pos (Int.cast_lt_zero.mpr negative) (by positivity)
    rw [abs_of_neg sign] at rounded
    simpa using rounded.neg
  · rename_i nonnegative
    have sign : 0 ≤ d.value := div_nonneg (Int.cast_nonneg (not_lt.mp nonnegative)) (by positivity)
    rwa [abs_of_nonneg sign] at rounded

end Decimal

end CampusQuery
