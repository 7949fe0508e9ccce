import CampusQuery.Decimal.Conversion
import CampusQuery.Proofs.Rounding

/-!
# The value of decimals

A sum of decimals is exact as long as the sum of their sizes, all written with the same number of
places, is below the capacity: no partial sum is larger, so none is rounded or refused, whatever
the signs and the places are on the way (`Bounded.exists_sum`). Rounding to fewer places gives the
nearest number that has them, a half going away from zero (`nearest_roundTo`), and there is only
one (`Nearest.unique`).
-/

namespace CampusQuery

theorem cast_pow10 (k : Nat) : (pow10 k : ℚ) = 10 ^ k :=
  Nat.cast_pow 10 k

theorem abs_mul_pow (q : ℚ) (k : Nat) : |q| * 10 ^ k = |q * 10 ^ k| := by
  rw [abs_mul, abs_of_pos (by positivity : (0 : ℚ) < 10 ^ k)]

namespace Decimal

variable {a b d : Decimal} {s : Nat}

theorem scaled_of_le {places : Nat} (hd : d.places ≤ places) (hs : places ≤ s) :
    d.scaled s = d.scaled places * pow10 (s - places) := by
  have split : s - d.places = places - d.places + (s - places) := by omega
  rw [scaled, scaled, split, pow10_add, Nat.cast_mul, mul_assoc]

theorem fit?_eq_some {coefficient : Int} {places : Nat} (hc : coefficient.natAbs < capacity)
    (hp : places ≤ maxPlaces) :
    fit? coefficient places = some ⟨coefficient, places, hc, hp⟩ := by
  have same : divPow10 .toEven coefficient 0 = coefficient := by
    simp only [divPow10, pow10_zero, divRound_one]
    omega
  rw [fit?, List.range_succ_eq_map, List.findSome?_cons, same, Nat.sub_zero, of?_eq_some hc hp]

/-- A sum is exact if it fits with as many places as both terms can be written with. -/
theorem exists_add? (ha : a.places ≤ s) (hb : b.places ≤ s)
    (fits : (a.scaled s + b.scaled s).natAbs < capacity) :
    ∃ sum, a.add? b = some sum ∧ sum.places ≤ s ∧ sum.scaled s = a.scaled s + b.scaled s := by
  unfold add?
  split
  · rename_i zero
    exact ⟨b, rfl, hb, by simp [scaled, zero]⟩
  split
  · rename_i zero
    exact ⟨a, rfl, ha, by simp [scaled, zero]⟩
  extract_lets places
  have le : places ≤ s := max_le ha hb
  have aligned : a.scaled s + b.scaled s =
      (a.scaled places + b.scaled places) * pow10 (s - places) := by
    rw [scaled_of_le (le_max_left _ _) le, scaled_of_le (le_max_right _ _) le, add_mul]
  have smaller : (a.scaled places + b.scaled places).natAbs < capacity := by
    refine lt_of_le_of_lt ?_ fits
    rw [aligned, Int.natAbs_mul, Int.natAbs_natCast]
    exact Nat.le_mul_of_pos_right _ (pow10_pos _)
  exact ⟨_, fit?_eq_some smaller (max_le a.places_le b.places_le), le, aligned.symm⟩

/-- The terms that are still to come take no more of the capacity than was kept free for them. -/
theorem exists_foldlM_add? {decimals : List Decimal} (hd : ∀ d ∈ decimals, d.places ≤ s)
    {total : Decimal} (ht : total.places ≤ s)
    (fits : (total.scaled s).natAbs + (decimals.map fun d => (d.scaled s).natAbs).sum < capacity) :
    ∃ sum, decimals.foldlM add? total = some sum ∧ sum.places ≤ s ∧
      sum.scaled s = total.scaled s + (decimals.map (scaled · s)).sum := by
  induction decimals generalizing total with
  | nil => exact ⟨total, rfl, ht, by simp⟩
  | cons d decimals ih =>
    obtain ⟨hd, rest⟩ := List.forall_mem_cons.mp hd
    rw [List.map_cons, List.sum_cons] at fits
    obtain ⟨next, added, hn, scaled_next⟩ := exists_add? ht hd (by omega)
    obtain ⟨sum, found, hs, scaled_sum⟩ := ih rest hn (by omega)
    refine ⟨sum, ?_, hs, ?_⟩
    · rw [List.foldlM_cons, added]
      exact found
    · rw [scaled_sum, scaled_next, List.map_cons, List.sum_cons, add_assoc]

def value (d : Decimal) : ℚ := d.coefficient / 10 ^ d.places

theorem value_mul_pow (hd : d.places ≤ s) : d.value * 10 ^ s = d.scaled s := by
  have split : (10 : ℚ) ^ s = 10 ^ d.places * 10 ^ (s - d.places) := by
    rw [← pow_add, Nat.add_sub_cancel' hd]
  rw [value, scaled, split, ← mul_assoc, div_mul_cancel₀ _ (by positivity), Int.cast_mul,
    Int.cast_natCast, cast_pow10]

/-- All decimals can be written with `s` places, and then there is room for their sum whatever their
signs are. -/
structure Bounded (s : Nat) (decimals : List Decimal) : Prop where
  places_le : ∀ d ∈ decimals, d.places ≤ s
  sizes_lt : (decimals.map fun d => |d.value|).sum * 10 ^ s < 2 ^ 96

theorem Bounded.perm {decimals decimals' : List Decimal} (h : Bounded s decimals)
    (perm : decimals.Perm decimals') : Bounded s decimals' where
  places_le d mem := h.places_le d (perm.mem_iff.mpr mem)
  sizes_lt := (perm.map fun d => |d.value|).sum_eq ▸ h.sizes_lt

theorem Bounded.abs_sum_lt {decimals : List Decimal} (h : Bounded s decimals) :
    |(decimals.map value).sum| * 10 ^ s < 2 ^ 96 := by
  have smaller : |(decimals.map value).sum| ≤ ((decimals.map value).map abs).sum :=
    List.le_sum_of_subadditive abs abs_zero.le abs_add_le _
  rw [List.map_map] at smaller
  exact (mul_le_mul_of_nonneg_right smaller (by positivity)).trans_lt h.sizes_lt

theorem Bounded.exists_sum {decimals : List Decimal} (h : Bounded s decimals) :
    ∃ sum, decimals.foldlM add? zero = some sum ∧ sum.places ≤ s ∧
      sum.value = (decimals.map value).sum := by
  have sizes : (decimals.map fun d => |d.value|).sum * 10 ^ s =
      ((decimals.map fun d => (d.scaled s).natAbs).sum : Nat) := by
    rw [← List.sum_map_mul_right, Nat.cast_list_sum, List.map_map]
    refine congrArg _ (List.map_congr_left fun d mem => ?_)
    rw [Function.comp, Nat.cast_natAbs, Int.cast_abs, ← value_mul_pow (h.places_le d mem),
      abs_mul_pow]
  have values : (decimals.map value).sum * 10 ^ s = ((decimals.map (scaled · s)).sum : Int) := by
    rw [← List.sum_map_mul_right, Int.cast_list_sum, List.map_map]
    exact congrArg _ (List.map_congr_left fun d mem => value_mul_pow (h.places_le d mem))
  have fits : (decimals.map fun d => (d.scaled s).natAbs).sum < capacity := by
    have bound := h.sizes_lt
    rw [sizes] at bound
    exact_mod_cast bound
  have none : zero.scaled s = 0 := by simp [zero, scaled]
  have start : zero.places ≤ s := Nat.zero_le s
  obtain ⟨sum, found, hs, total⟩ := exists_foldlM_add? h.places_le start (by omega)
  refine ⟨sum, found, hs, mul_right_cancel₀ (by positivity : (10 : ℚ) ^ s ≠ 0) ?_⟩
  rw [value_mul_pow hs, total, none, zero_add, values]

/-! ## Rounding -/

/-- The number is a whole one after so many decimal places. -/
def HasPlaces (places : Nat) (r : ℚ) : Prop := ∃ k : ℤ, r * 10 ^ places = k

theorem HasPlaces.intCast {places : Nat} (n : ℤ) : HasPlaces places n :=
  ⟨n * 10 ^ places, by push_cast; rfl⟩

/-- Of the numbers with so many decimal places, `r` is nearest to `q`, and no other one that is as
near is further from zero. -/
structure Nearest (places : Nat) (q r : ℚ) : Prop where
  has_places : HasPlaces places r
  near {r' : ℚ} (h : HasPlaces places r') : |q - r| ≤ |q - r'|
  away {r' : ℚ} (h : HasPlaces places r') (tie : |q - r'| = |q - r|) : |r'| ≤ |r|

theorem Nearest.unique {places : Nat} {q r r' : ℚ} (h : Nearest places q r)
    (h' : Nearest places q r') : r = r' := by
  have near : |q - r| = |q - r'| := le_antisymm (h.near h'.has_places) (h'.near h.has_places)
  have size : |r| = |r'| :=
    le_antisymm (h'.away h.has_places near) (h.away h'.has_places near.symm)
  rcases abs_eq_abs.mp near with same | mirrored
  · linarith
  rcases abs_eq_abs.mp size with same | opposite
  · exact same
  -- Two opposite numbers are as near to zero only, which is itself nearest to it.
  · obtain rfl : q = 0 := by linarith
    have least := h.near (⟨0, by simp⟩ : HasPlaces places 0)
    rw [zero_sub, abs_neg, sub_zero, abs_zero, abs_nonpos_iff] at least
    linarith

/-- A number with so many places is kept. -/
theorem HasPlaces.nearest {places : Nat} {r : ℚ} (h : HasPlaces places r) :
    Nearest places r r := by
  refine ⟨h, fun _ => by simp, fun _ tie => ?_⟩
  rw [sub_self, abs_zero, abs_eq_zero, sub_eq_zero] at tie
  rw [tie]

theorem lt_divRound_awayFromZero {n d : Nat} (hd : 0 < d) :
    2 * n < 2 * (d * divRound .awayFromZero n d) + d := by
  have h := Nat.div_add_mod n d
  have hr := Nat.mod_lt n hd
  unfold divRound
  simp only [reduceCtorEq, false_and, and_false, or_false]
  split
  · omega
  · rw [Nat.mul_add]
    omega

/-- No other multiple is nearer to a number, and one that is as near is not larger. -/
theorem divRound_nearest {d : Nat} (hd : 0 < d) (n : Nat) (k : Int) :
    (n - divRound .awayFromZero n d * d : Int).natAbs ≤ (n - k * d).natAbs ∧
      ((n - k * d).natAbs = (n - divRound .awayFromZero n d * d : Int).natAbs →
        k.natAbs ≤ divRound .awayFromZero n d) := by
  refine ⟨divRound_near .awayFromZero hd n k, fun tie => ?_⟩
  have upper := two_mul_divRound_le .awayFromZero n d
  have lower := @lt_divRound_awayFromZero n d hd
  rw [mul_comm d] at upper lower
  generalize divRound .awayFromZero n d = q at upper lower tie ⊢
  zify at upper lower
  rcases lt_trichotomy k q with less | rfl | greater
  · have gap := mul_add_le_mul less d
    by_contra large
    have negative := mul_add_le_mul (show k < 0 by omega) d
    omega
  · exact (Int.natAbs_natCast q).le
  · have gap := mul_add_le_mul greater d
    omega

theorem divPow10_nearest (n : Int) (j : Nat) (k : Int) :
    (n - divPow10 .awayFromZero n j * pow10 j).natAbs ≤ (n - k * pow10 j).natAbs ∧
      ((n - k * pow10 j).natAbs = (n - divPow10 .awayFromZero n j * pow10 j).natAbs →
        k.natAbs ≤ (divPow10 .awayFromZero n j).natAbs) := by
  rw [natAbs_divPow10]
  unfold divPow10
  split
  -- The signs of all three numbers are turned.
  · have turn (i : Int) :
        (n - i * pow10 j).natAbs = (n.natAbs - -i * pow10 j : Int).natAbs := by
      rw [neg_mul]
      omega
    rw [turn, turn, neg_neg, ← Int.natAbs_neg k]
    exact divRound_nearest (pow10_pos j) n.natAbs (-k)
  · have same := divRound_nearest (pow10_pos j) n.natAbs k
    rwa [Int.natAbs_of_nonneg (by omega)] at same

/-- How far a decimal is from a number with fewer places, counted in its own last place. -/
theorem abs_value_sub_mul {places : Nat} (le : places ≤ d.places) {r : ℚ} {k : ℤ}
    (hr : r * 10 ^ places = k) :
    |d.value - r| * 10 ^ d.places = (d.coefficient - k * pow10 (d.places - places)).natAbs := by
  have own : d.value * 10 ^ d.places = d.coefficient := div_mul_cancel₀ _ (by positivity)
  have other : r * 10 ^ d.places = k * pow10 (d.places - places) := by
    rw [← hr, cast_pow10, mul_assoc, ← pow_add, Nat.add_sub_cancel' le]
  rw [abs_mul_pow, sub_mul, own, other, Nat.cast_natAbs, Int.cast_abs]
  push_cast
  rfl

theorem nearest_roundTo (d : Decimal) (places : Nat) :
    Nearest places d.value (d.roundTo places).value := by
  rcases Nat.lt_or_ge places d.places with fewer | enough
  · have rounded : (d.roundTo places).value * 10 ^ places =
        divPow10 .awayFromZero d.coefficient (d.places - places) := by
      rw [roundTo, dif_pos fewer]
      exact div_mul_cancel₀ _ (by positivity)
    have unit : (0 : ℚ) < 10 ^ places := by positivity
    have last : (0 : ℚ) < 10 ^ d.places := by positivity
    refine ⟨⟨_, rounded⟩, fun {r'} ⟨k, hk⟩ => ?_, fun {r'} ⟨k, hk⟩ tie => ?_⟩
    · rw [← mul_le_mul_iff_left₀ last, abs_value_sub_mul fewer.le rounded,
        abs_value_sub_mul fewer.le hk, Nat.cast_le]
      exact (divPow10_nearest _ _ k).1
    · rw [← mul_left_inj' last.ne', abs_value_sub_mul fewer.le rounded,
        abs_value_sub_mul fewer.le hk, Nat.cast_inj] at tie
      have larger := (divPow10_nearest _ _ k).2 tie
      rwa [← mul_le_mul_iff_left₀ unit, abs_mul_pow, abs_mul_pow, hk, rounded, ← Int.cast_abs,
        ← Int.cast_abs, ← Nat.cast_natAbs, ← Nat.cast_natAbs, Nat.cast_le]
  · rw [roundTo, dif_neg enough.not_gt]
    exact HasPlaces.nearest ⟨_, value_mul_pow enough⟩

theorem toInt?_eq_some {m : Int} : d.toInt? = some m ↔ d.value = m := by
  have positive := pow10_pos d.places
  have whole : d.value = m ↔ d.coefficient = m * pow10 d.places := by
    rw [value, div_eq_iff (by positivity), ← cast_pow10]
    norm_cast
  rw [toInt?, Option.ite_none_right_eq_some, Option.some_inj, whole]
  constructor
  · rintro ⟨exact, rfl⟩
    exact (Int.ediv_mul_cancel (Int.dvd_of_emod_eq_zero exact)).symm
  · intro multiple
    rw [multiple]
    exact ⟨Int.mul_emod_left _ _, Int.mul_ediv_cancel _ (by omega)⟩

end Decimal

end CampusQuery
