import CampusQuery.Execution
import CampusQuery.Proofs.Catalog.Admission
import CampusQuery.Proofs.Execution.Extrema
import CampusQuery.Proofs.Query.Typing

/-!
# The cells under a column

A column that is in scope has a cell in every row, and all of them have one type
(`exists_cells`). This is where the typing of plans meets that of rows: a field has the cells of
the dataset's rows, a group field those of one member of each group, and an apply key the values of
its rule, which are numbers.
-/

namespace CampusQuery

namespace Aggregate

theorem extremum_isNumber {wanted : Ordering} (decided : wanted ≠ .eq) (cells : List Cell) :
    (extremum wanted cells).isNumber = true := by
  rcases eq_or_ne (cells.filter Cell.isNumber) [] with empty | nonempty
  · rw [extremum, empty]
    rfl
  · exact (unbeaten_extremum decided nonempty).isNumber

theorem isNumber_toCell (d : Decimal) : d.toCell.isNumber = true := by
  unfold Decimal.toCell
  split <;> rfl

theorem eval_isNumber (aggregate : Aggregate) (cells : List Cell) :
    (aggregate.eval cells).isNumber = true := by
  cases aggregate with
  | max => exact extremum_isNumber (by decide) cells
  | min => exact extremum_isNumber (by decide) cells
  | avg =>
    simp only [eval, meanOf]
    split
    · rfl
    · split
      · exact isNumber_toCell _
      · rfl
  | sum =>
    simp only [eval, sumOf]
    split
    · exact isNumber_toCell _
    · rfl
  | count => rfl

end Aggregate

theorem FieldType.isNumber_eq {type : FieldType} {a b : Cell} (ha : type.admits a = true)
    (hb : type.admits b = true) : a.isNumber = b.isNumber := by
  cases type <;> simp_all [admits]

theorem Filter.mem_select {filter : Filter} {rows : List Row} {row : Row} :
    row ∈ filter.select rows ↔ row ∈ rows ∧ filter.accepts row = true := by
  rw [select_eq_filter, List.mem_filter]

theorem Filter.select_sublist (filter : Filter) (rows : List Row) :
    (filter.select rows).Sublist rows := by
  rw [select_eq_filter]
  exact List.filter_sublist

theorem Filter.perm_select (filter : Filter) {rows rows' : List Row} (perm : rows.Perm rows') :
    (filter.select rows).Perm (filter.select rows') := by
  rw [select_eq_filter, select_eq_filter]
  exact perm.filter _

/-- Under a column in scope every row has a cell, and of one type. -/
theorem exists_cells {kind : Kind} {rows : List Row} (admitted : ∀ row ∈ rows, kind.Admits row)
    {transformation : Option Transformation} (typed : ∀ t ∈ transformation, t.WellTyped kind)
    {column : Column} (scope : column.InScope kind transformation) :
    ∃ type : FieldType, ∀ row ∈ transformRows transformation rows,
      ∃ cell, row.get? column = some cell ∧ type.admits cell = true := by
  cases scope with
  | field h =>
    obtain ⟨field, found, rfl⟩ := h
    refine ⟨field.type, fun working hw => ?_⟩
    obtain ⟨row, hr, rfl⟩ := List.mem_map.mp hw
    exact (admitted row hr).cell field found
  | @group t name mem =>
    obtain ⟨field, found, rfl⟩ := (typed t rfl).group name mem
    refine ⟨field.type, fun working hw => ?_⟩
    obtain ⟨members, hm, rfl⟩ := List.mem_map.mp hw
    obtain ⟨row, rest, rfl⟩ := List.exists_cons_of_ne_nil (ne_nil_of_mem_groupRows hm)
    have hr : row ∈ rows := mem_of_mem_groupRows hm List.mem_cons_self
    rw [t.get?_collapse_field, if_pos mem]
    exact (admitted row hr).cell field found
  | @apply t rule mem =>
    refine ⟨.numeric, fun working hw => ?_⟩
    obtain ⟨members, _, rfl⟩ := List.mem_map.mp hw
    obtain ⟨first, found⟩ : ∃ first, t.rules.reverse.find? (·.key = rule.key) = some first :=
      Option.isSome_iff_exists.mp
        (List.find?_isSome.mpr ⟨rule, List.mem_reverse.mpr mem, decide_eq_true rfl⟩)
    rw [t.get?_collapse_apply, found]
    exact ⟨_, rfl, Aggregate.eval_isNumber _ _⟩

end CampusQuery
