import CampusQuery.Execution
import CampusQuery.Proofs.Query.Reading
import CampusQuery.Proofs.ResultRow

/-!
# What result rows show

A row is projected to the labels of the columns without repetitions (`names_project`), and shows
its own cell under each that no two columns share (`get?_project`).

The labels of a query's columns are the strings that it names them by (`map_label`), and no two
columns have the same (`label_injective`).
-/

namespace CampusQuery

namespace WorkingRow

variable {id : String} {columns : List Column} {row : WorkingRow}

theorem names_project (present : ∀ column ∈ columns, ∃ cell, row.get? column = some cell) :
    (row.project id columns).names = (columns.map (Column.label id)).eraseDups := by
  rw [project, ResultRow.names_ofList]
  congr 1
  induction columns with
  | nil => rfl
  | cons column columns ih =>
    obtain ⟨cell, found⟩ := present column List.mem_cons_self
    have rest := ih fun other mem => present other (List.mem_cons_of_mem _ mem)
    rw [List.filterMap_cons_some (by rw [found]; rfl), List.map_cons, List.map_cons, rest]

/-- A column is shown under its label, unless another one has the same. -/
theorem get?_project {column : Column}
    (unique : ∀ other ∈ columns, other.label id = column.label id → other = column) :
    (row.project id columns).get? (column.label id) =
      if column ∈ columns then row.get? column else none := by
  rw [project, ResultRow.get?_ofList]
  induction columns with
  | nil => rfl
  | cons head columns ih =>
    have rest := ih fun other mem => unique other (List.mem_cons_of_mem _ mem)
    by_cases same : head = column
    · subst same
      cases found : row.get? head with
      | none =>
        rw [List.filterMap_cons_none (by rw [found]; rfl), rest]
        simp [found]
      | some cell =>
        rw [List.filterMap_cons_some (by rw [found]; rfl), List.lookup_cons_self]
        simp
    · have distinct : (column.label id == head.label id) = false :=
        beq_false_of_ne fun labels => same (unique head List.mem_cons_self labels.symm)
      simp only [List.mem_cons, Ne.symm same, false_or, ← rest]
      cases found : row.get? head with
      | none => rw [List.filterMap_cons_none (by rw [found]; rfl)]
      | some cell =>
        rw [List.filterMap_cons_some (by rw [found]; rfl), List.lookup_cons, distinct]

end WorkingRow

namespace Query

variable {dataset : Descriptor} {keys : List String}

/-- A column is labelled with the string that names it. -/
theorem Resolves.label_eq {reference : String} {column : Column}
    (h : Resolves dataset keys reference column) : column.label dataset.id = reference := by
  cases h with
  | apply => rfl
  | field _ found => exact found.2.symm

theorem Resolves.unique {reference : String} {a b : Column}
    (ha : Resolves dataset keys reference a) (hb : Resolves dataset keys reference b) : a = b := by
  cases ha with
  | apply known =>
    cases hb with
    | apply => rfl
    | field unknown => exact absurd known unknown
  | field unknown found =>
    cases hb with
    | apply known => exact absurd known unknown
    | field _ other => rw [qualified_inj.mp (found.2.symm.trans other.2)]

section

variable {references : List String} {columns : List Column}
  (each : List.Forall₂ (Resolves dataset keys) references columns)

include each

theorem map_label : columns.map (Column.label dataset.id) = references := by
  induction each with
  | nil => rfl
  | cons h _ ih => rw [List.map_cons, h.label_eq, ih]

theorem label_injective {a b : Column} (ha : a ∈ columns) (hb : b ∈ columns)
    (h : a.label dataset.id = b.label dataset.id) : a = b := by
  obtain ⟨reference, _, first⟩ := exists_of_mem_right each ha
  obtain ⟨other, _, second⟩ := exists_of_mem_right each hb
  rw [first.label_eq, second.label_eq] at h
  exact first.unique (h ▸ second)

end

end Query

end CampusQuery
