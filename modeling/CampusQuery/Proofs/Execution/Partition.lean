import CampusQuery.Proofs.Catalog.History
import CampusQuery.Proofs.Execution.Grouping

/-!
# Groups as parts of the rows

Grouping splits rows into parts, one for each key, that together are the rows (`parts`,
`flatten_parts_perm`), and leaves one row for each part, which shows what its members share and
what the rules make of them (`Summarizes`). `transformRows_summarizes` is that this is all there is
to it: what the rows become is told by their parts alone, one by one and in their order.
-/

namespace CampusQuery

/-- The rows that share a key, for each key in the order in which the keys first come. -/
def parts (fields : List String) (rows : List Row) : List (List Row) :=
  (rows.map (Row.groupKey fields)).eraseDups.map fun key =>
    rows.filter (Row.groupKey fields · = key)

/-- The parts together are the rows, each as often as it is there. -/
theorem flatten_parts_perm (fields : List String) (rows : List Row) :
    (parts fields rows).flatten.Perm rows :=
  flatten_filter_perm (nodup_eraseDups _) fun _ mem =>
    List.mem_eraseDups.mpr (List.mem_map_of_mem mem)

/-- A group row that shows of its members the cells of the first one in the group fields, as far as
there are any, and the value of every rule under its key, and nothing else. -/
inductive Transformation.Summarizes (t : Transformation) (members : List Row) : WorkingRow → Prop
  | group {first : Row} {fields aggregates : Row} (head : members.head? = some first)
    (cells : ∀ name, fields[name]? = if name ∈ t.group then first[name]? else none)
    (values : ∀ key cell, aggregates[key]? = some cell ↔
      ∃ rule ∈ t.rules, rule.key = key ∧ rule.eval members = cell) :
    Summarizes t members (.group fields aggregates)

namespace Transformation

variable {t : Transformation} (nodup : (t.rules.map ApplyRule.key).Nodup)

include nodup

theorem find?_reverse_rules {key : String} {rule : ApplyRule} :
    t.rules.reverse.find? (·.key = key) = some rule ↔ rule ∈ t.rules ∧ rule.key = key := by
  refine ⟨fun found => ?_, fun ⟨mem, same⟩ => ?_⟩
  · have same : rule.key = key := by simpa using List.find?_some found
    exact ⟨List.mem_reverse.mp (List.mem_of_find?_eq_some found), same⟩
  · have reversed : (t.rules.reverse.map ApplyRule.key).Nodup := by
      rw [List.map_reverse]
      exact List.nodup_reverse.mpr nodup
    exact same ▸ find?_eq_some_of_mem reversed (List.mem_reverse.mpr mem)

/-- The row that a group becomes is the summary of its members. -/
theorem collapse_summarizes {members : List Row} (nonempty : members ≠ []) :
    t.Summarizes members (t.collapse members) := by
  obtain ⟨first, rest, rfl⟩ := List.exists_cons_of_ne_nil nonempty
  refine .group rfl (t.get?_collapse_field first rest) fun key cell => ?_
  rw [getElem?_foldl_insert]
  simp only [Option.map_eq_some_iff, find?_reverse_rules nodup, and_assoc]

end Transformation

/-- Grouped rows are the summaries of their parts. The parts have members, and together all rows;
rows that are not grouped stay as they are. -/
theorem transformRows_summarizes (t : Transformation) (nodup : (t.rules.map ApplyRule.key).Nodup)
    (rows : List Row) :
    transformRows none rows = rows.map .source ∧
      (∀ members ∈ parts t.group rows, members ≠ []) ∧
      (parts t.group rows).flatten.Perm rows ∧
      List.Forall₂ t.Summarizes (parts t.group rows) (transformRows (some t) rows) := by
  have same : groupRows t.group rows = parts t.group rows := groupRows_eq t.group rows
  have nonempty : ∀ members ∈ parts t.group rows, members ≠ [] :=
    fun members mem => ne_nil_of_mem_groupRows (same ▸ mem)
  refine ⟨rfl, nonempty, flatten_parts_perm t.group rows, ?_⟩
  rw [transformRows, Transformation.run, same, List.forall₂_map_right_iff, List.forall₂_same]
  exact fun members mem => Transformation.collapse_summarizes nodup (nonempty members mem)

/-- The best average of each department. -/
def Transformation.bestAverages : Transformation := ⟨["dept"], [⟨"best", .max, "avg"⟩]⟩

theorem transformRows_summarizes_bestAverages :
    (Transformation.bestAverages.rules.map ApplyRule.key).Nodup ∧
      transformRows none Table.courses.rows = Table.courses.rows.map .source ∧
      (∀ members ∈ parts ["dept"] Table.courses.rows, members ≠ []) ∧
      (parts ["dept"] Table.courses.rows).flatten.Perm Table.courses.rows ∧
      List.Forall₂ Transformation.bestAverages.Summarizes (parts ["dept"] Table.courses.rows)
        (transformRows (some .bestAverages) Table.courses.rows) :=
  ⟨by decide, transformRows_summarizes .bestAverages (by decide) Table.courses.rows⟩

end CampusQuery
