import CampusQuery.Proofs.Decimal.Quotient
import CampusQuery.Proofs.Execution.Extrema
import CampusQuery.Proofs.Execution.Sums

/-!
# Aggregates and the order of cells

An aggregate of exact cells does not depend on the order in which they come (`eval_perm`). Two
integers that do not beat each other are the same (`eq_of_unbeaten`), so there is one extremum, and
a count is that of a set. Sums and means of integers never leave the decimals as long as there are
fewer than 2³² of them: no partial sum reaches the capacity (`decimalSum?_integers`), and a quotient
always fits (`Decimal.divNat?_isSome`).

Only a sum or mean of integers beside texts is left out. It is taken in binary64 arithmetic, where
the order of the terms counts.
-/

namespace CampusQuery

namespace Decimal

theorem eq_of_parts {a b : Decimal} (hc : a.coefficient = b.coefficient)
    (hp : a.places = b.places) : a = b := by
  cases a
  cases b
  cases hc
  cases hp
  rfl

end Decimal

namespace Aggregate

/-- Integers have an exact sum in decimals. -/
theorem exists_decimalSum? {cells : List Cell} (integers : ∀ cell ∈ cells, ∃ n, cell = .integer n)
    (few : cells.length < 2 ^ 32) :
    ∃ sum, decimalSum? cells = some sum ∧
      sum.coefficient = (cells.map (·.key.number)).sum ∧ sum.places = 0 := by
  obtain ⟨ns, rfl⟩ : cells ∈ Set.range (List.map Cell.integer) := by
    rw [Set.range_list_map]
    intro cell mem
    obtain ⟨n, rfl⟩ := integers cell mem
    exact ⟨n, rfl⟩
  obtain ⟨total, found, whole, exact⟩ := decimalSum?_integers (List.length_map Cell.integer ▸ few)
  refine ⟨total, found, ?_, whole⟩
  rw [exact, List.map_map]
  rfl

theorem decimalSum?_texts {cells : List Cell} (texts : ∀ cell ∈ cells, ∃ s, cell = .text s)
    (nonempty : cells ≠ []) : decimalSum? cells = none := by
  obtain ⟨cell, rest, rfl⟩ := List.exists_cons_of_ne_nil nonempty
  obtain ⟨s, rfl⟩ := texts cell List.mem_cons_self
  rfl

theorem integers_or_texts {cells : List Cell} (exact : ∀ cell ∈ cells, cell.Exact)
    (uniform : ∀ x ∈ cells, ∀ y ∈ cells, x.isNumber = y.isNumber) :
    (∀ cell ∈ cells, ∃ n, cell = .integer n) ∨ ∀ cell ∈ cells, ∃ s, cell = .text s := by
  rcases cells with - | ⟨first, rest⟩
  · exact .inl nofun
  cases number : first.isNumber with
  | true =>
    exact .inl fun cell mem => (exact cell mem).eq_integer
      ((uniform cell mem first List.mem_cons_self).trans number)
  | false =>
    exact .inr fun cell mem => (exact cell mem).eq_text
      ((uniform cell mem first List.mem_cons_self).trans number)

theorem binarySum_texts {cells : List Cell} (texts : ∀ cell ∈ cells, ∃ s, cell = .text s) :
    binarySum cells = -.zero := by
  have none : cells.filterMap Cell.toBinary64? = [] :=
    List.filterMap_eq_nil_iff.mpr fun cell mem => by
      obtain ⟨s, rfl⟩ := texts cell mem
      rfl
  rw [binarySum, none, List.foldl_nil]

section Permutations

variable {cells cells' : List Cell} (perm : cells.Perm cells')

include perm

theorem decimalSum?_perm (integers : ∀ cell ∈ cells, ∃ n, cell = .integer n)
    (few : cells.length < 2 ^ 32) :
    ∃ sum, decimalSum? cells = some sum ∧ decimalSum? cells' = some sum ∧ sum.places = 0 := by
  obtain ⟨sum, found, coefficient, whole⟩ := exists_decimalSum? integers few
  obtain ⟨sum', found', coefficient', whole'⟩ := exists_decimalSum?
    (fun cell mem => integers cell (perm.mem_iff.mpr mem)) (perm.length_eq ▸ few)
  have total := (perm.map (·.key.number)).sum_eq
  have same : sum' = sum := Decimal.eq_of_parts
    (coefficient'.trans (total.symm.trans coefficient.symm)) (whole'.trans whole.symm)
  exact ⟨sum, found, same ▸ found', whole⟩

variable (one : (∀ cell ∈ cells, ∃ n, cell = .integer n) ∨ ∀ cell ∈ cells, ∃ s, cell = .text s)
  (few : cells.length < 2 ^ 32)

include one few

/-- In any order there is the same whole sum in decimals, or there is none and the binary64 sum is
the same. -/
theorem sums_perm :
    (∃ sum, decimalSum? cells = some sum ∧ decimalSum? cells' = some sum ∧ sum.places = 0) ∨
      decimalSum? cells = none ∧ decimalSum? cells' = none ∧
        binarySum cells = binarySum cells' := by
  rcases one with integers | texts
  · exact .inl (decimalSum?_perm perm integers few)
  rcases eq_or_ne cells [] with rfl | nonempty
  · exact .inl (decimalSum?_perm perm nofun few)
  have texts' : ∀ cell ∈ cells', ∃ s, cell = .text s :=
    fun cell mem => texts cell (perm.mem_iff.mpr mem)
  have nonempty' : cells' ≠ [] := mt (fun empty => (empty ▸ perm).eq_nil) nonempty
  exact .inr ⟨decimalSum?_texts texts nonempty, decimalSum?_texts texts' nonempty',
    (binarySum_texts texts).trans (binarySum_texts texts').symm⟩

theorem sumOf_perm : sumOf cells = sumOf cells' := by
  rcases sums_perm perm one few with ⟨sum, found, found', _⟩ | ⟨none, none', same⟩
  · rw [sumOf, sumOf, found, found']
  · rw [sumOf, sumOf, none, none', same]

theorem meanOf_perm : meanOf cells = meanOf cells' := by
  rcases eq_or_ne cells [] with rfl | nonempty
  · rw [perm.nil_eq]
  have nonempty' : cells' ≠ [] := mt (fun empty => (empty ▸ perm).eq_nil) nonempty
  simp only [meanOf, List.isEmpty_iff, nonempty, nonempty', if_false, ← perm.length_eq]
  rcases sums_perm perm one few with ⟨sum, found, found', whole⟩ | ⟨none, none', same⟩
  · obtain ⟨mean, quotient⟩ := Option.isSome_iff_exists.mp
      (sum.divNat?_isSome (List.length_pos_iff.mpr nonempty))
    simp only [found, found', Option.bind_some, quotient]
  · simp only [none, none', same, Option.bind_none]

end Permutations

section Extrema

variable {wanted : Ordering} (strict : wanted ≠ .eq)

include strict

theorem eq_of_unbeaten {a b : Int} (hab : compare a b ≠ wanted) (hba : compare b a ≠ wanted) :
    a = b := by
  cases wanted with
  | eq => exact absurd rfl strict
  | lt =>
    rw [ne_eq, compare_lt_iff_lt] at *
    omega
  | gt =>
    rw [ne_eq, compare_gt_iff_gt] at *
    omega

/-- Two integers that no other beats are the same. -/
theorem extremum_perm {cells cells' : List Cell} (perm : cells.Perm cells')
    (exact : ∀ cell ∈ cells, cell.Exact) : extremum wanted cells = extremum wanted cells' := by
  have numbers : (cells.filter Cell.isNumber).Perm (cells'.filter Cell.isNumber) := perm.filter _
  rcases eq_or_ne (cells.filter Cell.isNumber) [] with empty | nonempty
  · have empty' : cells'.filter Cell.isNumber = [] := (empty ▸ numbers).nil_eq.symm
    rw [extremum, extremum, empty, empty']
  have nonempty' : cells'.filter Cell.isNumber ≠ [] :=
    mt (fun empty => (empty ▸ numbers).eq_nil) nonempty
  have best := unbeaten_extremum strict nonempty
  have best' := unbeaten_extremum strict nonempty'
  have rivals := best.unbeaten _ (perm.mem_iff.mpr best'.mem) best'.isNumber
  have rivals' := best'.unbeaten _ (perm.mem_iff.mp best.mem) best.isNumber
  obtain ⟨n, hn⟩ := (exact _ best.mem).eq_integer best.isNumber
  obtain ⟨n', hn'⟩ := (exact _ (perm.mem_iff.mpr best'.mem)).eq_integer best'.isNumber
  rw [hn, hn'] at rivals rivals'
  rw [hn, hn', Int64.toInt_inj.mp (eq_of_unbeaten strict rivals' rivals)]

end Extrema

theorem distinct_perm {cells cells' : List Cell} (perm : cells.Perm cells') :
    distinct cells = distinct cells' := by
  have same : Std.ExtTreeSet.ofList (cells.map Cell.key) =
      Std.ExtTreeSet.ofList (cells'.map Cell.key) :=
    Std.ExtTreeSet.ext_mem fun key => by
      simp only [Std.ExtTreeSet.mem_ofList, List.contains_iff_mem, (perm.map Cell.key).mem_iff]
  rw [distinct, distinct, same]

/-- The order of exact cells makes no difference to an aggregate, unless it is a sum or mean of
integers and texts together. -/
theorem eval_perm (aggregate : Aggregate) {cells cells' : List Cell} (perm : cells.Perm cells')
    (exact : ∀ cell ∈ cells, cell.Exact) (few : cells.length < 2 ^ 32)
    (uniform : aggregate = .sum ∨ aggregate = .avg →
      ∀ x ∈ cells, ∀ y ∈ cells, x.isNumber = y.isNumber) :
    aggregate.eval cells = aggregate.eval cells' := by
  cases aggregate with
  | max => exact extremum_perm (by decide) perm exact
  | min => exact extremum_perm (by decide) perm exact
  | avg => exact meanOf_perm perm (integers_or_texts exact (uniform (.inr rfl))) few
  | sum => exact sumOf_perm perm (integers_or_texts exact (uniform (.inl rfl))) few
  | count =>
    rw [eval, eval, distinct_perm perm]

end Aggregate

end CampusQuery
