import CampusQuery.Proofs.Decimal.Quotient
import CampusQuery.Proofs.Execution.Sums

/-!
# Exact means

A mean is a sum in decimals, divided and then rounded to two places. The quotient is itself rounded
already, yet for up to a million integers of any size the mean comes out as if it had been rounded
once (`eval_avg_integers`). At least nine places of the quotient are right, as it is no larger than
an integer. The exact mean is either half-way between two numbers of two places, and then the
quotient is exact, or it is further from there than the error of the quotient.
-/

namespace CampusQuery

section Mean

variable {l : List ℚ} (nonempty : l ≠ []) {bound : ℚ}

include nonempty

theorem le_mean (le : ∀ x ∈ l, bound ≤ x) : bound ≤ l.sum / l.length := by
  have count : (0 : ℚ) < l.length := Nat.cast_pos.mpr (List.length_pos_iff.mpr nonempty)
  rw [le_div_iff₀ count, mul_comm, ← nsmul_eq_mul]
  exact List.card_nsmul_le_sum l bound le

theorem mean_le (le : ∀ x ∈ l, x ≤ bound) : l.sum / l.length ≤ bound := by
  have count : (0 : ℚ) < l.length := Nat.cast_pos.mpr (List.length_pos_iff.mpr nonempty)
  rw [div_le_iff₀ count, mul_comm, ← nsmul_eq_mul]
  exact List.sum_le_card_nsmul l bound le

end Mean

namespace Aggregate

theorem eval_avg_of_divNat? {cells : List Cell} {total quotient : Decimal} (nonempty : cells ≠ [])
    (found : decimalSum? cells = some total)
    (divided : total.divNat? cells.length = some quotient) :
    avg.eval cells = (quotient.roundTo places).toCell := by
  rw [eval, meanOf, if_neg (by simpa using nonempty), found, Option.bind_some, divided]
  rfl

theorem natAbs_sum_le (ns : List Int64) :
    (ns.map Int64.toInt).sum.natAbs ≤ ns.length * 2 ^ 63 := by
  induction ns with
  | nil => exact le_rfl
  | cons n ns ih =>
    have lower := Int64.le_toInt n
    have upper := Int64.toInt_lt n
    rw [List.map_cons, List.sum_cons, List.length_cons, Nat.succ_mul]
    omega

section Integers

variable {ns : List Int64} (nonempty : ns ≠ [])

include nonempty

/-- The mean is no larger than an integer, so nine of its places fit. -/
theorem exists_quotient (few : ns.length < 2 ^ 32) :
    ∃ total quotient k, decimalSum? (ns.map .integer) = some total ∧
      total.value = (ns.map Int64.toInt).sum ∧ total.divNat? ns.length = some quotient ∧ 9 ≤ k ∧
      Decimal.Approximates k ((ns.map Int64.toInt).sum / ns.length) quotient.value := by
  obtain ⟨total, found, whole, exact⟩ := decimalSum?_integers few
  have value : total.value = (ns.map Int64.toInt).sum := by
    rw [Decimal.value, whole, pow_zero, div_one, exact]
  have fits : (total.scaled 9).natAbs ≤ ns.length * (Decimal.capacity - 1) := by
    rw [Decimal.scaled, whole, exact, Int.natAbs_mul, Int.natAbs_natCast]
    calc _ ≤ ns.length * 2 ^ 63 * pow10 (9 - 0) := Nat.mul_le_mul_right _ (natAbs_sum_le ns)
      _ = ns.length * (2 ^ 63 * pow10 (9 - 0)) := Nat.mul_assoc _ _ _
      _ ≤ ns.length * (Decimal.capacity - 1) := Nat.mul_le_mul_left _ (by decide)
  obtain ⟨quotient, k, divided, enough, near⟩ := Decimal.exists_divNat?
    (List.length_pos_iff.mpr nonempty) (whole.trans_le (Nat.zero_le 9)) (by decide) fits
  exact ⟨total, quotient, k, found, value, divided, enough, value ▸ near⟩

theorem inRange_of_nearest {m : Int}
    (nearest : Decimal.Nearest places ((ns.map Int64.toInt).sum / ns.length) m) :
    Cell.InRange m := by
  have values : (ns.map fun n => (n.toInt : ℚ)) ≠ [] := by simpa using nonempty
  have lower := le_mean values <| List.forall_mem_map.mpr fun n _ =>
    Int.cast_le.mpr (Int64.minValue_le_toInt n)
  have upper := mean_le values <| List.forall_mem_map.mpr fun n _ =>
    Int.cast_le.mpr (Int64.toInt_le n)
  have sum : (ns.map fun n => (n.toInt : ℚ)).sum = (ns.map Int64.toInt).sum := by
    rw [Int.cast_list_sum, List.map_map]
    rfl
  rw [sum, List.length_map] at lower upper
  exact ⟨by exact_mod_cast nearest.le (.intCast _) lower,
    by exact_mod_cast nearest.ge (.intCast _) upper⟩

end Integers

/-- The mean of up to a million integers is the exact one rounded once, to two places and with a
half going away from zero; it is an integer exactly if that is what the rounding gives. -/
theorem eval_avg_integers (ns : List Int64) (nonempty : ns ≠ []) (few : ns.length ≤ 10 ^ 6) :
    (∃ total quotient, decimalSum? (ns.map .integer) = some total ∧
      total.value = (ns.map Int64.toInt).sum ∧ total.divNat? ns.length = some quotient ∧
      avg.eval (ns.map .integer) = (quotient.roundTo places).toCell ∧
      Decimal.Nearest places ((ns.map Int64.toInt).sum / ns.length)
        (quotient.roundTo places).value) ∧
    ∀ m : Int, Decimal.Nearest places ((ns.map Int64.toInt).sum / ns.length) m ↔
      ∃ n : Int64, n.toInt = m ∧ avg.eval (ns.map .integer) = .integer n := by
  obtain ⟨total, quotient, k, found, exact, divided, enough, near⟩ :=
    exists_quotient nonempty (few.trans_lt (by decide))
  have eval : avg.eval (ns.map .integer) = (quotient.roundTo places).toCell :=
    eval_avg_of_divNat? (by simpa using nonempty) found (by rwa [List.length_map])
  have count : 0 < ns.length := List.length_pos_iff.mpr nonempty
  have nearest : Decimal.Nearest places ((ns.map Int64.toInt).sum / ns.length)
      (quotient.roundTo places).value := by
    refine (quotient.nearest_roundTo places).of_approximates near (by rw [places]; omega)
      fun c half other => ?_
    have apart := Decimal.le_abs_sub_midpoint _ count half other
    have unit : (2 * ns.length * 10 ^ places : ℚ) ≤ 10 ^ k := by
      have few : (ns.length : ℚ) ≤ 10 ^ 6 := by exact_mod_cast few
      have more : (10 : ℚ) ^ 9 ≤ 10 ^ k := pow_le_pow_right₀ (by norm_num) enough
      rw [places]
      linarith
    exact apart.trans (mul_le_mul_of_nonneg_left unit (abs_nonneg _))
  refine ⟨⟨total, quotient, found, exact, divided, eval, nearest⟩, fun m => ⟨fun whole => ?_, ?_⟩⟩
  · obtain ⟨n, rfl⟩ : ∃ n : Int64, n.toInt = m :=
      ⟨.ofInt m, Cell.ofInt?_eq_some.mp (if_pos (inRange_of_nearest nonempty whole))⟩
    exact ⟨n, rfl, eval.trans (Decimal.toCell_eq_integer.mpr (nearest.unique whole))⟩
  · rintro ⟨n, rfl, is⟩
    rw [eval, Decimal.toCell_eq_integer] at is
    exact is ▸ nearest

/-- The mean of these integers is half-way between two numbers with two places. -/
def eighth : List Int64 := [-1, 0, 0, 0, 0, 0, 0, 0]

/-- The sum of these integers is too large for an integer, and their mean is one. -/
def greatest : List Int64 := [.maxValue, .maxValue, .maxValue]

theorem eval_avg_integers_eighth :
    eighth ≠ [] ∧ eighth.length ≤ 10 ^ 6 ∧
      (∃ mean : Decimal, avg.eval (eighth.map .integer) = mean.toCell ∧
        Decimal.Nearest places (-1 / 8) mean.value) ∧
      avg.eval (eighth.map .integer) = .float (.ofRatio true 13 100) ∧
      avg.eval (greatest.map .integer) = .integer .maxValue := by
  have nonempty : eighth ≠ [] := List.cons_ne_nil _ _
  have few : eighth.length ≤ 10 ^ 6 := by decide
  obtain ⟨_, quotient, -, -, -, eval, nearest⟩ := (eval_avg_integers eighth nonempty few).1
  have mean : ((eighth.map Int64.toInt).sum / eighth.length : ℚ) = -1 / 8 := by
    rw [show (eighth.map Int64.toInt).sum = -1 by decide, show eighth.length = 8 from rfl]
    norm_num
  have mean' : ((greatest.map Int64.toInt).sum / greatest.length : ℚ) = Int64.maxValue.toInt := by
    rw [show (greatest.map Int64.toInt).sum = Int64.maxValue.toInt * 3 by decide,
      show greatest.length = 3 from rfl]
    norm_num
  have whole := (eval_avg_integers greatest (List.cons_ne_nil _ _) (by decide)).2
  rw [mean] at nearest
  rw [mean'] at whole
  obtain ⟨n, same, is⟩ := (whole _).mp (Decimal.HasPlaces.intCast _).nearest
  obtain rfl := Int64.toInt_inj.mp same
  exact ⟨nonempty, few, ⟨_, eval, nearest⟩, by decide +kernel, is⟩

end Aggregate

end CampusQuery
