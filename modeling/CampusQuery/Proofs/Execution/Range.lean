import CampusQuery.Proofs.Decimal.Conversion
import CampusQuery.Proofs.Except
import CampusQuery.Proofs.Execution.Extrema
import CampusQuery.Proofs.Execution.Means

/-!
# The range of a mean

A mean of decimals with two places lies between the least and the greatest of them: neither the
rounding of the quotient nor that to two places leaves a range whose ends have two places
(`exists_mean`). If the mean is whole or not beyond 2⁴⁵, it becomes an integer or the binary64 number
nearest to it, and rounding keeps order. So it compares as it should with the extrema of the list
(`eval_avg_range`), except that two integers may straddle the number of the list that both are
rounded to. Beyond 2⁴⁵ a mean that is not whole may become a number outside the range
(`eval_avg_outside`).
-/

namespace CampusQuery

open Binary64 (Rounds ofRat)

namespace Cell

/-- The cell is an integer, or the binary64 number nearest to a value. -/
inductive Shows : Cell → ℚ → Prop
  | integer (n : Int64) : Shows (.integer n) n.toInt
  | float {x : Binary64} {q : ℚ} (rounds : x.Rounds q) : Shows (.float x) q

variable {a b c : Cell} {q r : ℚ}

theorem Shows.number (h : a.Shows q) : a.Number := by
  cases h with
  | integer n => exact .integer n
  | float rounds => exact .float rounds.isNaN

theorem Shows.rounded_eq (h : a.Shows q) : a.rounded = (ofRat q).units := by
  cases h with
  | integer n => exact Binary64.rounds_ofInt n.toInt
  | float rounds => exact rounds

/-- Cells compare as the values that they show. -/
theorem Shows.compare_ne_gt (ha : a.Shows q) (hb : b.Shows r) (le : q ≤ r) :
    a.compare b ≠ .gt := by
  intro gt
  have rounded : a.rounded ≤ b.rounded := by
    rw [ha.rounded_eq, hb.rounded_eq]
    exact Binary64.Rounds.mono rfl rfl le
  obtain ⟨m, n, less, rfl, rfl⟩ := exists_integer_of_compare ha.number hb.number gt rounded
  cases ha
  cases hb
  exact less.not_ge (by exact_mod_cast le)

/-- A cell that is a decimal shows its value. -/
theorem shows_of_ofCell? {cell : Cell} {d : Decimal} (found : Decimal.ofCell? cell = some d)
    (few : d.places < Decimal.maxPlaces) : cell.Shows d.value := by
  cases cell with
  | integer n =>
    rw [Decimal.ofCell?_integer, Option.some_inj] at found
    rw [← found, Decimal.value_ofInt64]
    exact .integer n
  | float x => exact .float (Decimal.rounds_of_ofBinary64? found few)
  | text s => exact absurd found nofun

theorem shows_toCell {d : Decimal} (rounds : d.toBinary64.Rounds d.value) :
    d.toCell.Shows d.value := by
  rw [Decimal.toCell]
  split
  · rename_i n is
    rw [Decimal.toCell_eq_integer.mp (by rw [Decimal.toCell, is])]
    exact .integer n
  · exact .float rounds

/-- Two integers, the greater one first, that are rounded to one number of the list. -/
def Straddle (cells : List Cell) (a b : Cell) : Prop :=
  ∃ m n : Int64, n.toInt < m.toInt ∧ Binary64.ofInt m.toInt = .ofInt n.toInt ∧
    .float (.ofInt m.toInt) ∈ cells ∧ a = .integer m ∧ b = .integer n

theorem straddle_iff {cells : List Cell} (mem : b ∈ cells) (ha : a.Number) (hb : b.Number)
    (hc : c.Number) (hab : a.compare b ≠ .gt) (hbc : b.compare c ≠ .gt) :
    a.compare c = .gt ↔ Straddle cells a c := by
  constructor
  · intro hac
    obtain ⟨m, n, less, same, rfl, rfl, rfl⟩ := (compare_trans_iff ha hb hc).mp ⟨hab, hbc, hac⟩
    exact ⟨m, n, less, same, mem, rfl, rfl⟩
  · rintro ⟨m, n, less, -, -, rfl, rfl⟩
    rw [compare_integer, Int.compare_eq_gt]
    exact less

theorem isNumber_of_number (h : a.Number) : a.isNumber = true := by
  cases h <;> rfl

/-- The number has at most two decimal places; a binary64 number counts as the shortest decimal that
reads back. -/
def TwoPlaces : Cell → Prop
  | integer _ => True
  | float x => x.isFinite = true ∧
      (x.isZero = true ∨ -2 ≤ (Binary64.shortest .awayFromZero x.magnitude).exponent)
  | text _ => False

instance (cell : Cell) : Decidable cell.TwoPlaces :=
  match cell with
  | .integer _ => .isTrue trivial
  | .float _ => inferInstanceAs (Decidable (_ ∧ _))
  | .text _ => .isFalse id

theorem TwoPlaces.places_le {cell : Cell} {d : Decimal} (h : cell.TwoPlaces)
    (found : Decimal.ofCell? cell = some d) : d.places ≤ 2 := by
  cases cell with
  | integer n =>
    rw [Decimal.ofCell?_integer, Option.some_inj] at found
    exact found ▸ Nat.zero_le 2
  | float x =>
    rw [Decimal.ofCell?, Decimal.ofBinary64?] at found
    split at found
    · exact Option.some_inj.mp found ▸ Nat.zero_le 2
    rename_i nonzero
    have few := h.2.resolve_left nonzero
    rw [if_pos h.1] at found
    rcases Option.or_eq_some_iff.mp found with digits | ⟨-, bits⟩
    · unfold Decimal.ofDigits? at digits
      extract_lets signed places at digits
      split at digits
      · exact (Decimal.parts_of_of? digits).2.trans_le (Nat.zero_le 2)
      split at digits
      · rw [(Decimal.parts_of_of? digits).2]
        omega
      · rw [Decimal.maxPlaces] at *
        omega
    · rw [(Decimal.rounds_of_ofBits? h.1 bits).1]
      exact Nat.zero_le 2
  | text s => exact h.elim

end Cell

/-! ## Means -/

namespace Decimal

/-- Where there is room for a sum with more places than the terms have, there is with as many. -/
theorem Bounded.of_places_le {decimals : List Decimal} {s p : Nat} (h : Bounded s decimals)
    (few : ∀ d ∈ decimals, d.places ≤ p) : Bounded (min s p) decimals where
  places_le d mem := le_min (h.places_le d mem) (few d mem)
  sizes_lt := by
    have sizes : 0 ≤ (decimals.map fun d => |d.value|).sum :=
      List.sum_nonneg (List.forall_mem_map.mpr fun d _ => abs_nonneg d.value)
    have power : (10 : ℚ) ^ min s p ≤ 10 ^ s := pow_le_pow_right₀ (by norm_num) (min_le_left s p)
    exact (mul_le_mul_of_nonneg_left power sizes).trans_lt h.sizes_lt

theorem places_roundTo_le (d : Decimal) (places : Nat) : (d.roundTo places).places ≤ places := by
  rw [roundTo]
  split
  · exact le_rfl
  · exact not_lt.mp ‹_›

end Decimal

namespace Aggregate

section Converted

variable {cells : List Cell} {decimals : List Decimal} {s : Nat}
  (converted : List.Forall₂ (fun cell d => Decimal.ofCell? cell = some d) cells decimals)
  (bounded : Decimal.Bounded s decimals) (nonempty : cells ≠ []) (le : s ≤ places)

include converted bounded nonempty le

/-- The mean in decimals is between two of the terms. -/
theorem exists_mean :
    ∃ mean : Decimal, avg.eval cells = mean.toCell ∧ mean.places ≤ places ∧
      (∃ lower ∈ decimals, lower.value ≤ mean.value) ∧
      ∃ upper ∈ decimals, mean.value ≤ upper.value := by
  obtain ⟨total, found, hs, exact⟩ := bounded.exists_sum
  rw [← decimalSum?_eq_foldlM converted] at found
  have pos : 0 < cells.length := List.length_pos_iff.mpr nonempty
  have size : (total.scaled s).natAbs < Decimal.capacity := by
    have size := bounded.abs_sum_lt
    rw [← exact, abs_mul_pow, Decimal.value_mul_pow hs, ← Int.cast_abs, ← Nat.cast_natAbs] at size
    exact_mod_cast size
  have fits : (total.scaled s).natAbs ≤ cells.length * (Decimal.capacity - 1) :=
    (Nat.le_sub_one_of_lt size).trans (Nat.le_mul_of_pos_left _ pos)
  obtain ⟨quotient, k, divided, enough, near⟩ :=
    Decimal.exists_divNat? pos hs (le.trans (by decide)) fits
  have rounded := quotient.nearest_roundTo places
  have terms : decimals ≠ [] := ne_nil_of_forall₂ converted nonempty
  have values : decimals.map Decimal.value ≠ [] := mt List.map_eq_nil_iff.mp terms
  rw [exact, converted.length_eq, ← List.length_map Decimal.value] at near
  have within (d : Decimal) (mem : d ∈ decimals) : d.places ≤ s := bounded.places_le d mem
  have some : decimals.toFinset.Nonempty := List.toFinset_nonempty_iff _ |>.mpr terms
  refine ⟨quotient.roundTo places, eval_avg_of_divNat? nonempty found divided,
    quotient.places_roundTo_le places, ?_, ?_⟩
  · obtain ⟨lower, mem, least⟩ := decimals.toFinset.exists_min_image Decimal.value some
    simp only [List.mem_toFinset] at mem least
    have first := le_mean values (List.forall_mem_map.mpr least)
    have second := near.le (Decimal.hasPlaces_value ((within lower mem).trans enough)) first
    exact ⟨lower, mem, rounded.le (Decimal.hasPlaces_value ((within lower mem).trans le)) second⟩
  · obtain ⟨upper, mem, greatest⟩ := decimals.toFinset.exists_max_image Decimal.value some
    simp only [List.mem_toFinset] at mem greatest
    have first := mean_le values (List.forall_mem_map.mpr greatest)
    have second := near.ge (Decimal.hasPlaces_value ((within upper mem).trans enough)) first
    exact ⟨upper, mem, rounded.ge (Decimal.hasPlaces_value ((within upper mem).trans le)) second⟩

omit nonempty

theorem shows_of_converted :
    List.Forall₂ (fun cell d => cell.Shows d.value) cells decimals := by
  refine (forall₂_and_right.mpr ⟨converted, bounded.places_le⟩).imp fun cell d h => ?_
  exact Cell.shows_of_ofCell? h.1 ((h.2.trans le).trans_lt (by decide))

end Converted

/-! ## Extrema -/

section Extrema

variable {cells : List Cell} {decimals : List Decimal}
  (each : List.Forall₂ (fun cell d => cell.Shows d.value) cells decimals)

include each

theorem number_of_mem {cell : Cell} (mem : cell ∈ cells) : cell.Number :=
  (exists_forall₂.mp ⟨decimals, each⟩ cell mem).elim fun _ shows => shows.number

theorem unbeaten_of_mem {wanted : Ordering} (decided : wanted ≠ .eq) {cell : Cell}
    (mem : cell ∈ cells) : Unbeaten wanted cells (extremum wanted cells) :=
  have number := Cell.isNumber_of_number (number_of_mem each mem)
  unbeaten_extremum decided (List.ne_nil_of_mem (List.mem_filter.mpr ⟨mem, number⟩))

variable {mean : Cell} {r : ℚ} (shows : mean.Shows r)
  (lower : ∃ lower ∈ decimals, lower.value ≤ r) (upper : ∃ upper ∈ decimals, r ≤ upper.value)

include shows

include lower in
theorem compare_least :
    (min.eval cells).compare mean = .gt ↔ Cell.Straddle cells (min.eval cells) mean := by
  obtain ⟨d, mem, atLeast⟩ := lower
  obtain ⟨low, mem, lowShows⟩ := exists_of_mem_right each mem
  have least := unbeaten_of_mem each (show Ordering.lt ≠ .eq by decide) mem
  have first := least.unbeaten low mem (Cell.isNumber_of_number lowShows.number)
  have number := number_of_mem each least.mem
  rw [Cell.compare_swap _ low, ne_eq, Ordering.swap_eq_lt] at first
  exact Cell.straddle_iff mem number lowShows.number shows.number first
    (lowShows.compare_ne_gt shows atLeast)

include upper in
theorem compare_greatest :
    mean.compare (max.eval cells) = .gt ↔ Cell.Straddle cells mean (max.eval cells) := by
  obtain ⟨d, mem, atMost⟩ := upper
  obtain ⟨high, mem, highShows⟩ := exists_of_mem_right each mem
  have greatest := unbeaten_of_mem each (show Ordering.gt ≠ .eq by decide) mem
  have second := greatest.unbeaten high mem (Cell.isNumber_of_number highShows.number)
  exact Cell.straddle_iff mem shows.number highShows.number (number_of_mem each greatest.mem)
    (shows.compare_ne_gt highShows atMost) second

include lower upper in
theorem compare_single {cell : Cell} (single : cells = [cell]) : mean.compare cell = .eq := by
  obtain ⟨_, mem, atLeast⟩ := lower
  obtain ⟨_, mem', atMost⟩ := upper
  obtain ⟨low, lowMem, lowShows⟩ := exists_of_mem_right each mem
  obtain ⟨high, highMem, highShows⟩ := exists_of_mem_right each mem'
  obtain rfl := List.mem_singleton.mp (single ▸ lowMem)
  obtain rfl := List.mem_singleton.mp (single ▸ highMem)
  have above := lowShows.compare_ne_gt shows atLeast
  have below := shows.compare_ne_gt highShows atMost
  rw [Cell.compare_swap mean high, ne_eq, Ordering.swap_eq_gt] at above
  cases order : mean.compare high with
  | lt => exact absurd order above
  | eq => rfl
  | gt => exact absurd order below

end Extrema

/-- The mean of cells with two places that have room for their sum in decimals is between two of
them. If it is whole or not beyond 2⁴⁵, it compares with the extrema as it should, except that two
integers may straddle a number of the list, and the mean of one cell is level with that cell. -/
theorem eval_avg_range {cells : List Cell} {decimals : List Decimal} {s : Nat}
    (nonempty : cells ≠ []) (twoPlaces : ∀ cell ∈ cells, cell.TwoPlaces)
    (converted : List.Forall₂ (fun cell d => Decimal.ofCell? cell = some d) cells decimals)
    (bounded : Decimal.Bounded s decimals) :
    ∃ mean : Decimal, avg.eval cells = mean.toCell ∧
      (∃ lower ∈ decimals, lower.value ≤ mean.value) ∧
      (∃ upper ∈ decimals, mean.value ≤ upper.value) ∧
      (Decimal.HasPlaces 0 mean.value ∨ |mean.value| ≤ 2 ^ 45 →
        ((min.eval cells).compare (avg.eval cells) = .gt ↔
          Cell.Straddle cells (min.eval cells) (avg.eval cells)) ∧
        ((avg.eval cells).compare (max.eval cells) = .gt ↔
          Cell.Straddle cells (avg.eval cells) (max.eval cells)) ∧
        ∀ cell, cells = [cell] → (avg.eval cells).compare cell = .eq) := by
  have few (d : Decimal) (mem : d ∈ decimals) : d.places ≤ places := by
    obtain ⟨cell, mem', own⟩ := exists_of_mem_right converted mem
    exact (twoPlaces cell mem').places_le own
  have bounded := bounded.of_places_le few
  have le := Nat.min_le_right s places
  obtain ⟨mean, eval, few, lower, upper⟩ := exists_mean converted bounded nonempty le
  refine ⟨mean, eval, lower, upper, fun exact => ?_⟩
  have shows : (avg.eval cells).Shows mean.value :=
    eval ▸ Cell.shows_toCell (mean.rounds_toBinary64 few exact)
  have each := shows_of_converted converted bounded le
  exact ⟨compare_least each shows lower, compare_greatest each shows upper,
    fun _ single => compare_single each shows lower upper single⟩

/-- Minus 1.2, 2.55 and 3, the mean of which is 1.45. -/
def spread : List Cell :=
  [.float (.ofRatio true 12 10), .float (.ofRatio false 255 100), .integer 3]

theorem eval_avg_range_spread :
    spread ≠ [] ∧ (∀ cell ∈ spread, cell.TwoPlaces) ∧
      List.Forall₂ (fun cell d => Decimal.ofCell? cell = some d) spread
        (spread.filterMap Decimal.ofCell?) ∧
      Decimal.Bounded 2 (spread.filterMap Decimal.ofCell?) ∧
      avg.eval spread = .float (.ofRatio false 145 100) ∧
      (min.eval spread).compare (avg.eval spread) ≠ .gt ∧
      (avg.eval spread).compare (max.eval spread) ≠ .gt := by
  have nonempty : spread ≠ [] := List.cons_ne_nil _ _
  have twoPlaces : ∀ cell ∈ spread, cell.TwoPlaces := by
    decide +kernel
  have converted : List.Forall₂ (fun cell d => Decimal.ofCell? cell = some d) spread
      (spread.filterMap Decimal.ofCell?) := by
    decide +kernel
  have decimals : spread.filterMap Decimal.ofCell? = [⟨-12, 1, by decide, by decide⟩,
      ⟨255, 2, by decide, by decide⟩, ⟨3, 0, by decide, by decide⟩] := by
    decide +kernel
  have bounded : Decimal.Bounded 2 (spread.filterMap Decimal.ofCell?) := by
    rw [decimals]
    exact ⟨by decide, by norm_num [Decimal.value, abs_of_pos, abs_of_neg]⟩
  have small : ∀ d ∈ spread.filterMap Decimal.ofCell?, |d.value| ≤ 2 ^ 45 := by
    rw [decimals]
    norm_num [Decimal.value, abs_le]
  have eval : avg.eval spread = .float (.ofRatio false 145 100) := by
    decide +kernel
  obtain ⟨mean, -, ⟨lower, lowerMem, atLeast⟩, ⟨upper, upperMem, atMost⟩, range⟩ :=
    eval_avg_range nonempty twoPlaces converted bounded
  have size : |mean.value| ≤ 2 ^ 45 := abs_le.mpr
    ⟨(abs_le.mp (small lower lowerMem)).1.trans atLeast,
      atMost.trans (abs_le.mp (small upper upperMem)).2⟩
  obtain ⟨least, greatest, -⟩ := range (.inr size)
  rw [eval] at least greatest ⊢
  refine ⟨nonempty, twoPlaces, converted, bounded, rfl, fun gt => ?_, fun gt => ?_⟩
  · obtain ⟨_, _, -, -, -, -, is⟩ := least.mp gt
    cases is
  · obtain ⟨_, _, -, -, -, is, -⟩ := greatest.mp gt
    cases is

/-- The number nearest to 35184372088832.02, which is 2⁴⁵ and two hundredths. -/
def beyond : Binary64 := .ofRatio false 3518437208883202 100

theorem eval_avg_outside :
    ¬ ∀ cells : List Cell, cells ≠ [] → (∀ cell ∈ cells, cell.TwoPlaces) →
      (min.eval cells).compare (avg.eval cells) ≠ .gt ∧
        (avg.eval cells).compare (max.eval cells) ≠ .gt ∧
        ∀ cell, cells = [cell] → (avg.eval cells).compare cell = .eq := by
  intro between
  have outside := (between [.float beyond] (List.cons_ne_nil _ _) (by decide +kernel)).2.1
  revert outside
  decide +kernel

end Aggregate

end CampusQuery
