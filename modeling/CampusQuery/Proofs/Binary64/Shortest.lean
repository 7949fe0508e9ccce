import CampusQuery.Binary64.Shortest
import CampusQuery.Proofs.Binary64.Nearest

/-!
# The shortest decimal reads back

Seventeen decimal digits tell all binary64 numbers apart: a decimal on that grid is so close to its
number that no other number is as near (`magnitude_candidate`). So the search for the shortest
decimal never fails, and what it finds reads back as the number (`magnitude_shortest`).
-/

namespace CampusQuery

theorem pow10_le_of_toDigits {n : Nat} (pos : 0 < n) :
    pow10 ((Nat.toDigits 10 n).length - 1) ≤ n := by
  by_contra less
  rcases Nat.eq_zero_or_pos ((Nat.toDigits 10 n).length - 1) with zero | more
  · rw [zero, pow10_zero] at less
    omega
  · have := Nat.toDigits_length 10 n _ more (Nat.lt_of_not_le less)
    omega

namespace Binary64

variable {magnitude : Nat}

/-- The power of ten of the decimal exponent is at most the value. -/
theorem pow10_decimalExponent_le (pos : 0 < magnitude) :
    one * pow10 (decimalExponent magnitude).toNat ≤
      unitsOf magnitude * pow10 (-decimalExponent magnitude).toNat := by
  have units : 0 < unitsOf magnitude := (Nat.zero_le _).trans_lt (unitsOf_strictMono pos)
  unfold decimalExponent
  extract_lets u
  split
  · rename_i large
    have digits := Nat.mul_le_mul_left one (pow10_le_of_toDigits (Nat.div_pos large one_pos))
    rw [show ((Nat.toDigits 10 (u / one)).length - 1 : Int).toNat =
        (Nat.toDigits 10 (u / one)).length - 1 by omega]
    refine (digits.trans (Nat.mul_div_le u one)).trans (Nat.le_mul_of_pos_right _ (pow10_pos _))
  · have last : one ≤ u * pow10 324 :=
      (show one ≤ pow10 324 by decide +kernel).trans (Nat.le_mul_of_pos_left _ units)
    have found : ((List.range 325).find? (fun e => one ≤ u * pow10 e)).isSome :=
      List.find?_isSome.mpr ⟨324, by decide, by simpa using last⟩
    obtain ⟨e, first⟩ := Option.isSome_iff_exists.mp found
    have enough : one ≤ u * pow10 e := by simpa using List.find?_some first
    rw [first, Option.getD_some, neg_neg, Int.toNat_natCast, Int.toNat_neg_natCast, pow10_zero,
      Nat.mul_one]
    exact enough

/-- The multiple nearest to a number that is 10¹⁶ times as large as the unit. -/
theorem close_divRound (tie : Tie) {n d : Nat} (pos : 0 < d) (large : d * pow10 16 ≤ n) :
    2 ^ 54 * ((divRound tie n d * d : Nat) - n : Int).natAbs < n := by
  have upper := two_mul_divRound_le tie n d
  have lower := two_mul_le_divRound tie (n := n) pos
  rw [Nat.mul_comm d] at upper lower
  rw [show pow10 16 = 10000000000000000 from rfl] at large
  omega

/-- The nearest decimal of seventeen digits reads back. -/
theorem magnitude_candidate (tie : Tie) (pos : 0 < magnitude) (le : magnitude ≤ infinite) :
    ∃ d ∈ candidates tie magnitude (decimalExponent magnitude + 1 - 17),
      d.magnitude = magnitude := by
  have reached := pow10_decimalExponent_le pos
  generalize decimalExponent magnitude = top at reached ⊢
  refine ⟨_, List.mem_cons_self, ?_⟩
  rw [Digits.magnitude, Digits.ratio]
  dsimp only
  split
  · rename_i whole
    have large : one * pow10 (top + 1 - 17).toNat * pow10 16 ≤ unitsOf magnitude := by
      rw [show (-top).toNat = 0 by omega, pow10_zero, Nat.mul_one] at reached
      rwa [Nat.mul_assoc, ← pow10_add, show (top + 1 - 17).toNat + 16 = top.toNat by omega]
    have close := close_divRound tie (Nat.mul_pos one_pos (pow10_pos _)) large
    refine roundUnits_eq_of_close Nat.one_pos le ?_
    rw [Nat.cast_one, mul_one, Nat.mul_one, Nat.mul_assoc, Nat.mul_comm (pow10 _)]
    exact close
  · rename_i fraction
    have large : one * pow10 16 ≤ unitsOf magnitude * pow10 (top + 1 - 17).natAbs := by
      have scaled := Nat.mul_le_mul_right (pow10 (16 - top.toNat)) reached
      rwa [Nat.mul_assoc, Nat.mul_assoc, ← pow10_add, ← pow10_add,
        show top.toNat + (16 - top.toNat) = 16 by omega,
        show (-top).toNat + (16 - top.toNat) = (top + 1 - 17).natAbs by omega] at scaled
    have close := close_divRound tie one_pos large
    refine roundUnits_eq_of_close (pow10_pos _) le ?_
    rwa [← Nat.cast_mul]

theorem magnitude_shortest (tie : Tie) {magnitude : Nat} (pos : 0 < magnitude)
    (le : magnitude ≤ infinite) : (shortest tie magnitude).magnitude = magnitude := by
  obtain ⟨d, mem, same⟩ := magnitude_candidate tie pos le
  unfold shortest
  extract_lets top onGrid
  have found : ((List.range 18).findSome? onGrid).isSome := by
    refine List.findSome?_isSome_iff.mpr ⟨17, by decide, ?_⟩
    exact List.find?_isSome.mpr ⟨d, mem, by simpa using same⟩
  obtain ⟨shortest, first⟩ := Option.isSome_iff_exists.mp found
  obtain ⟨k, -, own⟩ := List.exists_of_findSome?_eq_some first
  rw [first, Option.getD_some]
  simpa using List.find?_some own

end Binary64

end CampusQuery
