import CampusQuery.Proofs.Decimal

/-!
# Quotients of decimals

A quotient is kept with as many places as fit, so it is off by less than one unit of its last place
(`exists_divNat?`): no number with as many places lies between it and the exact quotient
(`Approximates.le`, `Approximates.ge`). Rounding it once more, to fewer places, gives what rounding
the exact quotient gives, as long as that one is not too close to a half
(`Nearest.of_approximates`). A quotient of whole numbers keeps its distance from the halves
(`le_abs_sub_midpoint`).
-/

namespace CampusQuery

theorem exists_findSome?_range {α : Type} {f : Nat → Option α} {i n : Nat} (less : i < n)
    (found : (f i).isSome) :
    ∃ j ≤ i, ∃ a, f j = some a ∧ (List.range n).findSome? f = some a := by
  have early : ((List.range (i + 1)).findSome? f).isSome :=
    List.findSome?_isSome_iff.mpr ⟨i, List.mem_range.mpr (Nat.lt_succ_self i), found⟩
  obtain ⟨a, first⟩ := Option.isSome_iff_exists.mp early
  obtain ⟨j, mem, own⟩ := List.exists_of_findSome?_eq_some first
  refine ⟨j, Nat.le_of_lt_succ (List.mem_range.mp mem), a, own, ?_⟩
  obtain ⟨rest, rfl⟩ := Nat.exists_eq_add_of_le less
  rw [List.range_add, List.findSome?_append, first, Option.some_or]

namespace Decimal

variable {d : Decimal} {places k : Nat} {q r : ℚ}

theorem HasPlaces.mono (h : HasPlaces places r) (le : places ≤ k) : HasPlaces k r := by
  obtain ⟨j, hj⟩ := h
  refine ⟨j * 10 ^ (k - places), ?_⟩
  rw [← Nat.add_sub_cancel' le, pow_add, ← mul_assoc, hj, Nat.add_sub_cancel_left]
  push_cast
  rfl

/-- Half of a number with so many places has one place more. -/
theorem HasPlaces.of_two_mul (h : HasPlaces places (2 * r)) : HasPlaces (places + 1) r := by
  obtain ⟨j, hj⟩ := h
  refine ⟨5 * j, ?_⟩
  rw [pow_succ]
  push_cast
  linarith

theorem HasPlaces.add {r' : ℚ} (h : HasPlaces places r) (h' : HasPlaces places r') :
    HasPlaces places (r + r') := by
  obtain ⟨j, hj⟩ := h
  obtain ⟨j', hj'⟩ := h'
  exact ⟨j + j', by rw [add_mul, hj, hj', Int.cast_add]⟩

theorem hasPlaces_value (h : d.places ≤ places) : HasPlaces places d.value :=
  ⟨_, value_mul_pow h⟩

/-- Two numbers with so many places are at least a unit of the last one apart. -/
theorem HasPlaces.eq_of_abs_sub_lt {r' : ℚ} (h : HasPlaces places r) (h' : HasPlaces places r')
    (close : |r - r'| * 10 ^ places < 1) : r = r' := by
  obtain ⟨j, hj⟩ := h
  obtain ⟨j', hj'⟩ := h'
  rw [abs_mul_pow, sub_mul, hj, hj', ← Int.cast_sub, ← Int.cast_abs] at close
  have same : j - j' = 0 := Int.abs_lt_one_iff.mp (by exact_mod_cast close)
  refine mul_right_cancel₀ (by positivity : (10 : ℚ) ^ places ≠ 0) ?_
  rw [hj, hj', Int.sub_eq_zero.mp same]

/-! Rounding to the nearest one does not pass a number with so many places. -/

namespace Nearest

variable {x : ℚ} (h : Nearest places q r) (hx : HasPlaces places x)

include h hx

theorem le (le : x ≤ q) : x ≤ r := by
  by_contra less
  have near := h.near hx
  rw [abs_of_nonneg (by linarith), abs_of_nonneg (by linarith)] at near
  linarith

theorem ge (ge : q ≤ x) : r ≤ x := by
  by_contra greater
  have near := h.near hx
  rw [abs_of_nonpos (by linarith), abs_of_nonpos (by linarith)] at near
  linarith

end Nearest

/-- The number `r` has `k` decimal places and is less than a unit of the last one away from `q`. -/
structure Approximates (k : Nat) (q r : ℚ) : Prop where
  has_places : HasPlaces k r
  error_lt : |q - r| * 10 ^ k < 1

namespace Approximates

variable {x : ℚ} (h : Approximates k q r)

include h

/-- A number that has the places is kept. -/
theorem eq (exact : HasPlaces k q) : r = q :=
  (exact.eq_of_abs_sub_lt h.has_places h.error_lt).symm

theorem le (hx : HasPlaces k x) (le : x ≤ q) : x ≤ r := by
  by_contra less
  have close : |r - x| * 10 ^ k < 1 := by
    refine lt_of_le_of_lt (mul_le_mul_of_nonneg_right ?_ (by positivity)) h.error_lt
    rw [abs_le]
    constructor <;> rw [abs_of_nonneg (by linarith)] <;> linarith
  exact less (h.has_places.eq_of_abs_sub_lt hx close).ge

theorem ge (hx : HasPlaces k x) (ge : q ≤ x) : r ≤ x := by
  by_contra greater
  have close : |r - x| * 10 ^ k < 1 := by
    refine lt_of_le_of_lt (mul_le_mul_of_nonneg_right ?_ (by positivity)) h.error_lt
    rw [abs_le]
    constructor <;> rw [abs_of_nonpos (by linarith)] <;> linarith
  exact greater (h.has_places.eq_of_abs_sub_lt hx close).le

end Approximates

/-- Rounding twice is rounding once, unless a number half-way between two neighbours is at hand
which the first rounding may reach or pass. -/
theorem Nearest.of_approximates {x : ℚ} (nearest : Nearest places r x)
    (h : Approximates k q r) (finer : places < k)
    (clear : ∀ c, HasPlaces places (2 * c) → q ≠ c → 1 ≤ |q - c| * 10 ^ k) :
    Nearest places q x := by
  by_cases half : HasPlaces places (2 * q)
  · rwa [← h.eq (half.of_two_mul.mono finer)]
  have near {x' : ℚ} (hx' : HasPlaces places x') : |q - x| ≤ |q - x'| := by
    by_contra farther
    rw [not_le] at farther
    have middle : HasPlaces places (2 * ((x + x') / 2)) := by
      rw [mul_div_cancel₀ _ two_ne_zero]
      exact nearest.has_places.add hx'
    -- The point half-way between `x` and `x'` separates `q` from `r`.
    have between : |q - (x + x') / 2| ≤ |q - r| := by
      have kept := sq_le_sq.mpr (nearest.near hx')
      have lost := sq_lt_sq.mpr farther
      rcases lt_trichotomy x x' with less | rfl | greater
      · rw [abs_of_nonneg (by nlinarith), abs_of_nonneg (by nlinarith)]
        nlinarith
      · exact absurd lost (lt_irrefl _)
      · rw [abs_of_nonpos (by nlinarith), abs_of_nonpos (by nlinarith)]
        nlinarith
    have apart := clear _ middle (fun same => half (same ▸ middle))
    have unit : (0 : ℚ) ≤ 10 ^ k := by positivity
    exact (apart.trans (mul_le_mul_of_nonneg_right between unit)).not_gt h.error_lt
  refine ⟨nearest.has_places, near, fun {x'} hx' tie => ?_⟩
  rcases abs_eq_abs.mp tie with same | mirrored
  · exact le_of_eq (congrArg _ (by linarith))
  · refine absurd ?_ half
    have sum : 2 * q = x + x' := by linarith
    exact sum ▸ nearest.has_places.add hx'

/-- A quotient of whole numbers that is not half-way between two neighbours is not close to it. -/
theorem le_abs_sub_midpoint (s : ℤ) {n : ℕ} (pos : 0 < n) {c : ℚ} (half : HasPlaces places (2 * c))
    (other : (s / n : ℚ) ≠ c) : 1 ≤ |(s / n : ℚ) - c| * (2 * n * 10 ^ places) := by
  obtain ⟨j, hj⟩ := half
  have whole : ((s / n : ℚ) - c) * (2 * n * 10 ^ places) = (2 * s * 10 ^ places - j * n : ℤ) := by
    have cancel : (s / n : ℚ) * n = s := div_mul_cancel₀ _ (Nat.cast_ne_zero.mpr pos.ne')
    push_cast
    rw [← hj]
    linear_combination (2 * 10 ^ places) * cancel
  have scale : (0 : ℚ) < 2 * n * 10 ^ places := by positivity
  rw [← abs_of_pos scale, ← abs_mul, whole, ← Int.cast_abs]
  have nonzero : 2 * s * 10 ^ places - j * n ≠ 0 := fun zero => by
    rw [zero, Int.cast_zero, mul_eq_zero, sub_eq_zero] at whole
    exact whole.elim other scale.ne'
  exact_mod_cast Int.one_le_abs nonzero

/-! ## Division -/

/-- Dropping zeros at the end keeps the value, and what fits still fits. -/
theorem exists_of?_trimmed {coefficient : Int} (fits : coefficient.natAbs < capacity)
    (le : places ≤ maxPlaces) :
    ∃ d, of? (trimmed coefficient places).1 (trimmed coefficient places).2 = some d ∧
      d.value = coefficient / 10 ^ places := by
  induction places generalizing coefficient with
  | zero => exact ⟨_, of?_eq_some fits le, rfl⟩
  | succ places ih =>
    rw [trimmed]
    split
    · rename_i zero
      have smaller : (coefficient / 10).natAbs ≤ coefficient.natAbs := by omega
      obtain ⟨d, found, value⟩ := ih (smaller.trans_lt fits) (Nat.le_of_succ_le le)
      refine ⟨d, found, ?_⟩
      have exact : (coefficient : ℚ) = (coefficient / 10 : ℤ) * 10 := by
        exact_mod_cast (Int.ediv_mul_cancel (Int.dvd_of_emod_eq_zero zero)).symm
      rw [value, exact, pow_succ, mul_div_mul_right _ _ (by norm_num)]
    · exact ⟨_, of?_eq_some fits le, rfl⟩

/-- The rounded size of a quotient, under its sign, is less than a unit away. -/
theorem abs_sub_signed_divRound {m signed : ℤ} {n : ℕ} (pos : 0 < n)
    (rounded : signed = if m < 0 then -(divRound .toEven m.natAbs n : ℤ)
      else divRound .toEven m.natAbs n) :
    |(m / n : ℚ) - signed| < 1 := by
  have distance : |m - signed * n| < n := by
    have upper := two_mul_divRound_le .toEven m.natAbs n
    have lower := two_mul_le_divRound .toEven (n := m.natAbs) pos
    rw [Nat.mul_comm n] at upper lower
    rw [rounded, Int.abs_eq_natAbs]
    split
    · rw [Int.neg_mul]
      omega
    · omega
  have divisor : (0 : ℚ) < n := Nat.cast_pos.mpr pos
  have scaled : (m / n : ℚ) - signed = (m - signed * n : ℤ) / n := by
    push_cast
    rw [sub_div, mul_div_cancel_right₀ _ divisor.ne']
  rw [scaled, abs_div, Nat.abs_cast, div_lt_one divisor, ← Int.cast_abs]
  exact_mod_cast distance

/-- The quotient rounded to some number of places, if that fits. -/
theorem exists_trimmed {n p : Nat} (pos : 0 < n) (hp : d.places ≤ p) (le : p ≤ maxPlaces)
    {signed : Int} (rounded : signed = if d.coefficient < 0
      then -(divRound .toEven (d.scaled p).natAbs n : Int)
      else divRound .toEven (d.scaled p).natAbs n)
    (fits : divRound .toEven (d.scaled p).natAbs n < capacity) :
    ∃ quotient, of? (trimmed signed p).1 (trimmed signed p).2 = some quotient ∧
      Approximates p (d.value / n) quotient.value := by
  have small : signed.natAbs < capacity := by
    rw [rounded]
    split <;> omega
  obtain ⟨quotient, found, same⟩ := exists_of?_trimmed small le
  have own : quotient.value * 10 ^ p = signed := by
    rw [same, div_mul_cancel₀ _ (by positivity)]
  have sign : d.scaled p < 0 ↔ d.coefficient < 0 := by
    have power : (0 : Int) < pow10 (p - d.places) := Int.natCast_pos.mpr (pow10_pos _)
    exact ⟨fun less => neg_of_mul_neg_left less power.le,
      fun less => mul_neg_of_neg_of_pos less power⟩
  refine ⟨quotient, found, ⟨signed, own⟩, ?_⟩
  rw [abs_mul_pow, sub_mul, own, div_mul_eq_mul_div, value_mul_pow hp]
  exact abs_sub_signed_divRound pos (by simpa only [sign] using rounded)

/-- A quotient that fits with some number of places has at least as many of them right. -/
theorem exists_divNat? {n p : Nat} (pos : 0 < n) (hp : d.places ≤ p) (le : p ≤ maxPlaces)
    (fits : (d.scaled p).natAbs ≤ n * (capacity - 1)) :
    ∃ quotient k, d.divNat? n = some quotient ∧ p ≤ k ∧
      Approximates k (d.value / n) quotient.value := by
  have size (places : Nat) :
      d.coefficient.natAbs * pow10 (places - d.places) = (d.scaled places).natAbs := by
    rw [scaled, Int.natAbs_mul, Int.natAbs_natCast]
  have exact {quotient : Decimal} (same : quotient.value = d.value / n) :
      Approximates maxPlaces (d.value / n) quotient.value :=
    ⟨hasPlaces_value quotient.places_le, by rw [same, sub_self]; simp⟩
  unfold divNat?
  split
  · rename_i none
    refine ⟨zero, maxPlaces, rfl, le, exact ?_⟩
    rw [value, value, none, zero, Int.cast_zero, zero_div, zero_div, zero_div]
  split
  · rename_i divides
    have smaller := (Int.natAbs_ediv_le_natAbs d.coefficient n).trans_lt d.coefficient_lt
    refine ⟨_, maxPlaces, of?_eq_some smaller d.places_le, le, exact ?_⟩
    rw [value, value, Int.cast_div (Int.dvd_of_emod_eq_zero divides)
      (Nat.cast_ne_zero.mpr pos.ne'), Int.cast_natCast, div_right_comm]
  -- The attempt at `p` places does not fail, and what an earlier one found has more places.
  · refine (exists_findSome?_range (i := maxPlaces - p) (by omega) ?_).elim
      fun j h => h.2.elim fun quotient found => ⟨quotient, maxPlaces - j, found.2, by omega, ?_⟩
    · have small : divRound .toEven (d.scaled p).natAbs n < capacity := by
        have upper := two_mul_divRound_le .toEven (d.scaled p).natAbs n
        refine Nat.lt_of_mul_lt_mul_left (a := n) ?_
        have room : n * capacity = n * (capacity - 1) + n := by
          rw [← Nat.mul_succ]
          rfl
        omega
      obtain ⟨quotient, found, -⟩ := exists_trimmed pos hp le rfl small
      simp only [Nat.sub_sub_self le, size]
      rw [if_neg hp.not_gt, if_pos small, found]
      rfl
    · have own := found.1
      simp only [size] at own
      rw [Option.ite_none_left_eq_some, Option.ite_none_right_eq_some] at own
      obtain ⟨more, less, own⟩ := own
      obtain ⟨quotient', found', near⟩ :=
        exists_trimmed pos (not_lt.mp more) (Nat.sub_le _ _) rfl less
      rw [own, Option.some_inj] at found'
      exact found' ▸ near

/-- There is always a quotient: it fits with the places of the decimal. -/
theorem divNat?_isSome (d : Decimal) {n : Nat} (pos : 0 < n) : (d.divNat? n).isSome := by
  have fits : (d.scaled d.places).natAbs ≤ n * (capacity - 1) := by
    rw [scaled, Nat.sub_self, pow10_zero, Nat.cast_one, mul_one]
    exact (Nat.le_sub_one_of_lt d.coefficient_lt).trans (Nat.le_mul_of_pos_left _ pos)
  obtain ⟨quotient, _, divided, -⟩ := exists_divNat? pos le_rfl d.places_le fits
  rw [divided, Option.isSome_some]

end Decimal

end CampusQuery
