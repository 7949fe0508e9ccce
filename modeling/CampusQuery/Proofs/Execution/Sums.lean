import CampusQuery.Proofs.Cell
import CampusQuery.Proofs.Decimal
import CampusQuery.Aggregation

/-!
# Exact sums

A sum of cells that are decimals is exact and is rounded once, at the end. All it takes is that the
sizes of the terms, written with the same number of places, have a sum below the capacity. So the
order of the terms makes no difference (`eval_sum_exact`), and fewer than 2³² integers always have
an exact sum, which is an integer or else too large for one.
-/

namespace CampusQuery

namespace Decimal

theorem toCell_eq_integer {d : Decimal} {n : Int64} :
    d.toCell = .integer n ↔ d.value = n.toInt := by
  have found : d.toInt?.bind Cell.ofInt? = some n ↔ d.value = n.toInt := by
    rw [← toInt?_eq_some, Option.bind_eq_some_iff]
    simp only [Cell.ofInt?_eq_some, exists_eq_right']
  rw [← found, toCell]
  split
  · rename_i m is
    rw [is, Cell.integer.injEq, Option.some_inj]
  · rename_i is
    simp [is]

/-- A whole decimal becomes the integer, or else the binary64 number nearest to it. -/
theorem toCell_whole {d : Decimal} (whole : d.places = 0) :
    d.toCell = if Cell.InRange d.coefficient then .integer (.ofInt d.coefficient)
      else .float (.ofInt d.coefficient) := by
  have own : d.toInt? = some d.coefficient :=
    toInt?_eq_some.mpr (by rw [value, whole, pow_zero, div_one])
  have float : d.toBinary64 = .ofInt d.coefficient := by
    simp only [toBinary64, whole, pow10_zero, Nat.div_one, Nat.mod_one, if_true, Binary64.ofInt]
    by_cases negative : d.coefficient < 0
    · simp only [negative, if_true, decide_true]
      rfl
    · simp only [negative, if_false, decide_false]
      rfl
  rw [toCell, own, Option.bind_some, Cell.ofInt?, float]
  by_cases range : Cell.InRange d.coefficient
  · rw [if_pos range, if_pos range]
  · rw [if_neg range, if_neg range]

/-- An integer as a decimal. -/
def ofInt64 (n : Int64) : Decimal where
  coefficient := n.toInt
  places := 0
  coefficient_lt := by
    have lower := Int64.le_toInt n
    have upper := Int64.toInt_lt n
    rw [capacity]
    omega
  places_le := Nat.zero_le _

theorem ofCell?_integer (n : Int64) : ofCell? (.integer n) = some (ofInt64 n) :=
  of?_eq_some _ _

theorem value_ofInt64 (n : Int64) : (ofInt64 n).value = n.toInt := by
  rw [value, ofInt64, pow_zero, div_one]

theorem sum_value_ofInt64 (ns : List Int64) :
    ((ns.map ofInt64).map value).sum = (ns.map Int64.toInt).sum := by
  rw [Int.cast_list_sum, List.map_map, List.map_map]
  exact congrArg _ (List.map_congr_left fun n _ => value_ofInt64 n)

theorem bounded_integers {ns : List Int64} (few : ns.length < 2 ^ 32) :
    Bounded 0 (ns.map ofInt64) where
  places_le := by
    simp only [List.mem_map]
    rintro _ ⟨n, -, rfl⟩
    exact le_rfl
  sizes_lt := by
    have each : ∀ size ∈ (ns.map ofInt64).map fun d => |d.value|, size ≤ 2 ^ 63 := by
      simp only [List.map_map, List.mem_map]
      rintro _ ⟨n, -, rfl⟩
      have lower := Int64.le_toInt n
      have upper := Int64.toInt_lt n
      rw [Function.comp, value_ofInt64, abs_le]
      constructor
      · exact_mod_cast lower
      · exact_mod_cast upper.le
    have total := List.sum_le_card_nsmul _ _ each
    rw [List.length_map, List.length_map, nsmul_eq_mul] at total
    have few : (ns.length : ℚ) < 2 ^ 32 := by exact_mod_cast few
    linarith

end Decimal

namespace Aggregate

/-- The cells have a sum in decimals. It is exact, and the aggregate is an integer exactly if that
is what the sum is rounded to. -/
structure SumsTo (cells : List Cell) (exact : ℚ) : Prop where
  decimal : ∃ total, decimalSum? cells = some total ∧ total.value = exact ∧
    Decimal.Nearest places exact (total.roundTo places).value
  integer (n : Int64) : sum.eval cells = .integer n ↔ Decimal.Nearest places exact n.toInt

theorem eval_sum_of_decimalSum? {cells : List Cell} {total : Decimal}
    (found : decimalSum? cells = some total) :
    sum.eval cells = (total.roundTo places).toCell := by
  rw [eval, sumOf, found]
  rfl

section Converted

variable {cells : List Cell} {decimals : List Decimal}
  (converted : List.Forall₂ (fun cell d => Decimal.ofCell? cell = some d) cells decimals)

include converted

theorem decimalSum?_eq_foldlM :
    decimalSum? cells = decimals.foldlM Decimal.add? .zero := by
  rw [decimalSum?]
  generalize Decimal.zero = total
  induction converted generalizing total with
  | nil => rfl
  | cons own _ ih =>
    simp only [List.foldlM_cons, own, Option.bind_eq_bind, Option.bind_some]
    exact congrArg _ (funext ih)

theorem sumsTo {s : Nat} (bounded : Decimal.Bounded s decimals) :
    SumsTo cells (decimals.map Decimal.value).sum := by
  obtain ⟨total, found, -, exact⟩ := bounded.exists_sum
  rw [← decimalSum?_eq_foldlM converted] at found
  have rounded := exact ▸ total.nearest_roundTo places
  refine ⟨⟨total, found, exact, rounded⟩, fun n => ?_⟩
  rw [eval_sum_of_decimalSum? found, Decimal.toCell_eq_integer]
  exact ⟨fun whole => whole ▸ rounded, fun nearest => rounded.unique nearest⟩

end Converted

/-! ## Integers -/

theorem converted_integers (ns : List Int64) :
    List.Forall₂ (fun cell d => Decimal.ofCell? cell = some d) (ns.map .integer)
      (ns.map .ofInt64) := by
  rw [List.forall₂_map_left_iff, List.forall₂_map_right_iff, List.forall₂_same]
  exact fun n _ => Decimal.ofCell?_integer n

section Integers

variable {ns : List Int64} (few : ns.length < 2 ^ 32)

include few

theorem decimalSum?_integers :
    ∃ total, decimalSum? (ns.map .integer) = some total ∧ total.places = 0 ∧
      total.coefficient = (ns.map Int64.toInt).sum := by
  obtain ⟨total, found, whole, exact⟩ := (Decimal.bounded_integers few).exists_sum
  rw [← decimalSum?_eq_foldlM (converted_integers ns)] at found
  rw [Nat.le_zero] at whole
  rw [Decimal.sum_value_ofInt64, Decimal.value, whole, pow_zero, div_one, Int.cast_inj] at exact
  exact ⟨total, found, whole, exact⟩

/-- A sum of integers is that integer, or else the binary64 number nearest to it. -/
theorem eval_sum_integers :
    sum.eval (ns.map .integer) = if Cell.InRange (ns.map Int64.toInt).sum
      then .integer (.ofInt (ns.map Int64.toInt).sum)
      else .float (.ofInt (ns.map Int64.toInt).sum) := by
  obtain ⟨total, found, whole, exact⟩ := decimalSum?_integers few
  have kept : total.roundTo places = total := by
    rw [Decimal.roundTo, dif_neg (by omega)]
  rw [eval_sum_of_decimalSum? found, kept, Decimal.toCell_whole whole, exact]

end Integers

/-- Cells that have room for their sum in decimals are summed exactly, in any order, and so are
fewer than 2³² integers. -/
theorem eval_sum_exact :
    (∀ (cells : List Cell) (decimals : List Decimal) (s : Nat),
      List.Forall₂ (fun cell d => Decimal.ofCell? cell = some d) cells decimals →
      Decimal.Bounded s decimals → ∀ cells', cells.Perm cells' →
        SumsTo cells' (decimals.map Decimal.value).sum) ∧
    ∀ ns : List Int64, ns.length < 2 ^ 32 →
      SumsTo (ns.map .integer) (ns.map Int64.toInt).sum ∧
      sum.eval (ns.map .integer) = if Cell.InRange (ns.map Int64.toInt).sum
        then .integer (.ofInt (ns.map Int64.toInt).sum)
        else .float (.ofInt (ns.map Int64.toInt).sum) := by
  constructor
  · intro cells decimals s converted bounded cells' perm
    obtain ⟨decimals', converted', permuted⟩ := List.perm_comp_forall₂ perm.symm converted
    rw [← (permuted.map Decimal.value).sum_eq]
    exact sumsTo converted' (bounded.perm permuted.symm)
  · intro ns few
    have exact := sumsTo (converted_integers ns) (Decimal.bounded_integers few)
    rw [Decimal.sum_value_ofInt64] at exact
    exact ⟨exact, eval_sum_integers few⟩

/-- A tenth, minus five and 4.9. -/
def balanced : List Cell :=
  [.float (.ofRatio false 1 10), .integer (-5), .float (.ofRatio false 49 10)]

/-- They make zero, also backwards. The greatest integer and one more make a binary64 number. -/
theorem eval_sum_exact_balanced :
    List.Forall₂ (fun cell d => Decimal.ofCell? cell = some d) balanced
        (balanced.filterMap Decimal.ofCell?) ∧
      Decimal.Bounded 1 (balanced.filterMap Decimal.ofCell?) ∧ SumsTo balanced.reverse 0 ∧
      sum.eval [.integer .maxValue, .integer 1] = .float (.ofInt (2 ^ 63)) := by
  have converted : List.Forall₂ (fun cell d => Decimal.ofCell? cell = some d) balanced
      (balanced.filterMap Decimal.ofCell?) := by
    decide +kernel
  have decimals : balanced.filterMap Decimal.ofCell? = [⟨1, 1, by decide, by decide⟩,
      ⟨-5, 0, by decide, by decide⟩, ⟨49, 1, by decide, by decide⟩] := by
    decide +kernel
  have bounded : Decimal.Bounded 1 (balanced.filterMap Decimal.ofCell?) := by
    rw [decimals]
    exact ⟨by decide, by norm_num [Decimal.value]⟩
  have exact : ((balanced.filterMap Decimal.ofCell?).map Decimal.value).sum = 0 := by
    norm_num [decimals, Decimal.value]
  have sums := eval_sum_exact.1 _ _ 1 converted bounded _ balanced.reverse_perm.symm
  exact ⟨converted, bounded, exact ▸ sums, (eval_sum_exact.2 [.maxValue, 1] (by decide)).2⟩

end Aggregate

end CampusQuery
