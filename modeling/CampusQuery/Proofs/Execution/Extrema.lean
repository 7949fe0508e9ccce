import CampusQuery.Aggregation
import CampusQuery.Proofs.Execution.Comparison

/-!
# Greatest and least numbers

The greatest number of a list, or the least, is one that no other number of the list beats
(`Aggregate.unbeaten_extremum`), although numbers are not in a total order: a NaN is level with
every number, and so are an integer and the number that it is rounded to. A number replaces the best
one so far only if it beats it outright, and what did not beat the old one does not beat the new one
either (`Cell.compare_ne_of_beaten`), whatever the forms of the three numbers are.

`eval_extrema` says so of both aggregates and of all lists.
-/

namespace CampusQuery

namespace Cell

theorem compare_self (a : Cell) : a.compare a = .eq := by
  cases a with
  | integer n => exact Std.ReflOrd.compare_self
  | text s => exact Std.ReflOrd.compare_self
  | float x =>
    show (x.compare? x).getD .eq = .eq
    unfold Binary64.compare?
    split
    · rfl
    · exact Std.ReflOrd.compare_self

/-- A number beside one that it is not level with is no NaN, and neither is the other one. -/
theorem number_of_compare {a b : Cell} (ha : a.isNumber = true) (hb : b.isNumber = true)
    (decided : a.compare b ≠ .eq) : a.Number ∧ b.Number := by
  have read {x y : Binary64} (unequal : (x.compare? y).getD .eq ≠ .eq) :
      x.isNaN = false ∧ y.isNaN = false := by
    unfold Binary64.compare? at unequal
    split at unequal
    · exact absurd rfl unequal
    · rename_i numbers
      simpa using numbers
  cases a with
  | text s => cases ha
  | integer m =>
    cases b with
    | text s => cases hb
    | integer n => exact ⟨.integer m, .integer n⟩
    | float y => exact ⟨.integer m, .float (read decided).2⟩
  | float x =>
    cases b with
    | text s => cases hb
    | integer n => exact ⟨.float (read decided).1, .integer n⟩
    | float y => exact ⟨.float (read decided).1, .float (read decided).2⟩

/-- The one exception to the transitivity of the order does not come up if one of the two steps is
strict: the integers of the exception are level with the number between them. -/
theorem compare_trans_of_strict {a b c : Cell} (ha : a.Number) (hb : b.Number) (hc : c.Number)
    (hab : a.compare b ≠ .gt) (hbc : b.compare c ≠ .gt)
    (strict : a.compare b = .lt ∨ b.compare c = .lt) : a.compare c ≠ .gt := by
  intro hac
  obtain ⟨m, n, -, same, rfl, rfl, rfl⟩ := (compare_trans_iff ha hb hc).mp ⟨hab, hbc, hac⟩
  have level : (integer m).compare (float (.ofInt m.toInt)) = .eq := by
    rw [compare_eq ha hb, Int.compare_eq_eq]
    rfl
  have level' : (float (.ofInt m.toInt)).compare (integer n) = .eq := by
    rw [compare_eq hb hc, Int.compare_eq_eq, same]
    rfl
  rw [level, level'] at strict
  simp at strict

/-- What does not beat a number does not beat one that beats it. -/
theorem compare_ne_of_beaten {wanted : Ordering} (decided : wanted ≠ .eq) {a b c : Cell}
    (ha : a.isNumber = true) (hb : b.isNumber = true) (hc : c.isNumber = true)
    (beaten : c.compare b = wanted) (kept : a.compare b ≠ wanted) : a.compare c ≠ wanted := by
  intro wins
  obtain ⟨nc, nb⟩ := number_of_compare hc hb (beaten ▸ decided)
  obtain ⟨na, -⟩ := number_of_compare ha hc (wins ▸ decided)
  cases wanted with
  | eq => exact decided rfl
  | gt =>
    have below : b.compare c = .lt := by rw [compare_swap c b, beaten, Ordering.swap_gt]
    exact compare_trans_of_strict na nb nc kept (by rw [below]; nofun) (.inr below) wins
  | lt =>
    have below : b.compare a ≠ .gt := by rwa [compare_swap a b, ne_eq, Ordering.swap_eq_gt]
    have above : c.compare a = .gt := by rw [compare_swap a c, wins, Ordering.swap_lt]
    exact compare_trans_of_strict nc nb na (by rw [beaten]; nofun) below (.inl beaten) above

end Cell

namespace Aggregate

/-- The cell is one of the numbers of the list, and none of them beats it. -/
structure Unbeaten (wanted : Ordering) (cells : List Cell) (best : Cell) : Prop where
  mem : best ∈ cells
  isNumber : best.isNumber = true
  unbeaten : ∀ cell ∈ cells, cell.isNumber = true → cell.compare best ≠ wanted

section Strict

variable {wanted : Ordering} (decided : wanted ≠ .eq)

include decided

/-- A fold that takes the next cell if it beats the best one so far ends with a cell that no other
beats. -/
theorem exists_best {better : Option Cell → Cell → Option Cell}
    (first : ∀ cell, better none cell = some cell)
    (next : ∀ old cell, better (some old) cell =
      if cell.compare old = wanted then some cell else some old)
    {cells : List Cell} (numbers : ∀ cell ∈ cells, cell.isNumber = true) (nonempty : cells ≠ []) :
    ∃ best, cells.foldl better none = some best ∧ Unbeaten wanted cells best := by
  have level (cell : Cell) : cell.compare cell ≠ wanted := by
    rw [Cell.compare_self]
    exact decided.symm
  -- The fold ends with the last cell, so the induction takes the cells from the right.
  induction cells using List.reverseRecOn with
  | nil => exact absurd rfl nonempty
  | append_singleton cells cell ih =>
    obtain ⟨earlier, last⟩ := List.forall_mem_append.mp numbers
    have number : cell.isNumber = true := last cell List.mem_cons_self
    rw [List.foldl_append, List.foldl_cons, List.foldl_nil]
    rcases eq_or_ne cells [] with rfl | nonempty
    · exact ⟨cell, first cell, List.mem_cons_self, number, by simpa using fun _ => level cell⟩
    obtain ⟨best, found, mem, isNumber, unbeaten⟩ := ih earlier nonempty
    rw [found, next]
    split
    · rename_i wins
      refine ⟨cell, rfl, List.mem_concat_self, number, List.forall_mem_append.mpr
        ⟨fun other mem is => ?_, by simpa using fun _ => level cell⟩⟩
      exact Cell.compare_ne_of_beaten decided is isNumber number wins (unbeaten other mem is)
    · rename_i kept
      exact ⟨best, rfl, List.mem_append_left _ mem, isNumber,
        List.forall_mem_append.mpr ⟨unbeaten, by simpa using fun _ => kept⟩⟩

theorem unbeaten_extremum {cells : List Cell} (nonempty : cells.filter Cell.isNumber ≠ []) :
    Unbeaten wanted cells (extremum wanted cells) := by
  have numbers : ∀ cell ∈ cells.filter Cell.isNumber, cell.isNumber = true :=
    fun cell mem => (List.mem_filter.mp mem).2
  unfold extremum
  extract_lets better
  obtain ⟨best, found, mem, isNumber, unbeaten⟩ :=
    @exists_best _ decided better (fun _ => rfl) (fun _ _ => rfl) _ numbers nonempty
  rw [found, Option.getD_some]
  exact ⟨(List.mem_filter.mp mem).1, isNumber,
    fun cell mem number => unbeaten cell (List.mem_filter.mpr ⟨mem, number⟩) number⟩

end Strict

/-- Without any number both extrema are zero. Otherwise the greatest number is one of the numbers,
as it stands in the list, and none of them is greater; and none is less than the least. -/
theorem eval_extrema (cells : List Cell) :
    ((∀ cell ∈ cells, cell.isNumber = false) ∧
      max.eval cells = .integer 0 ∧ min.eval cells = .integer 0) ∨
    (Unbeaten .gt cells (max.eval cells) ∧ Unbeaten .lt cells (min.eval cells)) := by
  rcases eq_or_ne (cells.filter Cell.isNumber) [] with empty | nonempty
  · left
    refine ⟨by simpa using empty, ?_, ?_⟩
    · rw [eval, extremum, empty]
      rfl
    · rw [eval, extremum, empty]
      rfl
  · exact .inr ⟨unbeaten_extremum (by decide) nonempty, unbeaten_extremum (by decide) nonempty⟩

end Aggregate

end CampusQuery
