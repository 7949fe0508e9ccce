import CampusQuery.Proofs.Catalog.History
import CampusQuery.Proofs.Execution.Grouping

/-!
# Which fields rows are grouped by

A group key lists the cells of a row in the order of the group fields, and repeats those of a field
that is repeated. But two rows have the same key exactly if they agree in each of the fields
(`Row.groupKey_congr`), and a group row shows each of them once (`Row.restrict_congr`).
`transformRows_sameFields` is that rows are therefore grouped by the set of the fields alone.
-/

namespace CampusQuery

section Fields

variable {fields fields' : List String} (same : ∀ name, name ∈ fields ↔ name ∈ fields')

include same

theorem Row.groupKey_congr (a b : Row) :
    a.groupKey fields = b.groupKey fields ↔ a.groupKey fields' = b.groupKey fields' := by
  simp only [groupKey, List.map_inj_left, same]

theorem Row.restrict_congr (row : Row) : row.restrict fields = row.restrict fields' := by
  refine Std.ExtTreeMap.ext_getElem? fun name => ?_
  rw [getElem?_restrict, getElem?_restrict, if_congr (same name) rfl rfl]

/-- The groups are the same and come in the same order, each with the same members in their order. -/
theorem groupRows_congr (rows : List Row) : groupRows fields rows = groupRows fields' rows := by
  rw [groupRows_eq, groupRows_eq]
  refine map_eraseDups_congr (Row.groupKey_congr same) fun row _ => ?_
  simp only [Row.groupKey_congr same]

theorem Transformation.collapse_congr (rules : List ApplyRule) (members : List Row) :
    (Transformation.mk fields rules).collapse members =
      (Transformation.mk fields' rules).collapse members := by
  have shown : (·.restrict fields) = fun row : Row => row.restrict fields' :=
    funext (Row.restrict_congr same)
  rw [collapse, collapse, shown]

end Fields

/-- Group fields in another order, or repeated, give the same groups and the same group rows. -/
theorem transformRows_sameFields {fields fields' : List String}
    (same : ∀ name, name ∈ fields ↔ name ∈ fields') (rules : List ApplyRule) (rows : List Row) :
    groupRows fields rows = groupRows fields' rows ∧
      transformRows (some ⟨fields, rules⟩) rows = transformRows (some ⟨fields', rules⟩) rows := by
  have groups := groupRows_congr same rows
  refine ⟨groups, ?_⟩
  rw [transformRows, transformRows, Transformation.run, Transformation.run, groups]
  exact List.map_congr_left fun members _ => Transformation.collapse_congr same rules members

theorem transformRows_sameFields_courses :
    (∀ name, name ∈ ["dept", "title"] ↔ name ∈ ["title", "dept", "title"]) ∧
      groupRows ["dept", "title"] Table.courses.rows =
        groupRows ["title", "dept", "title"] Table.courses.rows ∧
      transformRows (some ⟨["dept", "title"], [⟨"best", .max, "avg"⟩]⟩) Table.courses.rows =
        transformRows (some ⟨["title", "dept", "title"], [⟨"best", .max, "avg"⟩]⟩)
          Table.courses.rows := by
  have same : ∀ name, name ∈ ["dept", "title"] ↔ name ∈ ["title", "dept", "title"] := by
    intro name
    simp only [List.mem_cons, List.not_mem_nil, or_false]
    tauto
  exact ⟨same, transformRows_sameFields same _ _⟩

end CampusQuery
