import CampusQuery.Proofs.Execution.Projection
import CampusQuery.Proofs.Execution.Soundness

/-!
# What answers show

An answer is the projection of the rows that a plan leaves (`Plan.run_eq_ok`,
`Catalog.answer_eq_ok`). `Catalog.exists_shows` says what there is to see of it: every row has the
columns that the query asks for, under the strings that it asks for them by, and if nothing is
grouped these are the cells of a row of the dataset.
-/

namespace CampusQuery

theorem Plan.run_eq_ok {plan : Plan} {source : List Row} {rows : List ResultRow} :
    plan.run source = .ok rows ↔
      ∃ working, plan.workingRows? source = some working ∧ working.length ≤ maxResults ∧
        rows = working.map (·.project plan.dataset.id plan.columns) := by
  rw [run]
  cases plan.workingRows? source with
  | none => exact ⟨nofun, nofun⟩
  | some working =>
    simp only [projectRows, Option.some.injEq, exists_eq_left']
    split
    · rename_i many
      exact ⟨nofun, fun ⟨few, _⟩ => absurd few (Nat.not_le.mpr many)⟩
    · rename_i few
      exact ⟨fun h => ⟨Nat.not_lt.mp few, (Except.ok.inj h).symm⟩, fun ⟨_, h⟩ => h ▸ rfl⟩

theorem Catalog.answer_eq_ok {catalog : Catalog} {document : Json} {rows : List ResultRow} :
    catalog.answer document = .ok rows ↔
      ∃ plan source, Plan.ofDocument catalog.descriptors document = .ok plan ∧
        catalog.rows? plan.dataset.id = some source ∧ plan.run source = .ok rows := by
  simp only [answer, Source.answer, Source.plan, toSource, bind_eq_ok, mapError_eq_ok]
  refine ⟨fun ⟨plan, hp, h⟩ => ?_, fun ⟨plan, source, hp, found, h⟩ => ⟨plan, hp, ?_⟩⟩
  · split at h
    · cases h
    · rename_i source found
      exact ⟨plan, source, hp, found, h⟩
  · rw [found]
    exact h

/-- Rows that are not grouped are the rows that they were, in their order. -/
theorem exists_perm_of_sortRows? {order : Option Order} {rows : List Row}
    {sorted : List WorkingRow} (run : sortRows? order (rows.map .source) = some sorted) :
    ∃ picked : List Row, picked.Perm rows ∧ sorted = picked.map .source := by
  cases order with
  | none => exact ⟨rows, .refl _, (Option.some_inj.mp run).symm⟩
  | some order =>
    rw [sortRows?, Order.sort?, StableSort.sort?_map] at run
    obtain ⟨picked, found, rfl⟩ := Option.map_eq_some_iff.mp run
    exact ⟨picked, StableSort.sort?_perm found, rfl⟩

/-! ## What is shown -/

/-- The result row has the row's cells in the fields that the references name. -/
def ResultRow.ShowsFields (id : String) (references : List String) (row : Row)
    (result : ResultRow) : Prop :=
  ∀ reference ∈ references, ∃ name cell,
    reference = id ++ "_" ++ name ∧ row[name]? = some cell ∧ result.get? reference = some cell

/-- The result rows show all columns of the plan under the given references. -/
structure Plan.Shows (plan : Plan) (references : List String) (source : List Row)
    (rows : List ResultRow) : Prop where
  label : plan.columns.map (Column.label plan.dataset.id) = references
  label_injective : ∀ a ∈ plan.columns, ∀ b ∈ plan.columns,
    a.label plan.dataset.id = b.label plan.dataset.id → a = b
  names : ∀ row ∈ rows, row.names = references.eraseDups
  cells : ∃ working, plan.workingRows? source = some working ∧
    List.Forall₂ (fun row result => ∀ column ∈ plan.columns, ∃ cell,
      row.get? column = some cell ∧ result.get? (column.label plan.dataset.id) = some cell)
      working rows

theorem Plan.shows_run {plan : Plan} {source : List Row} {rows : List ResultRow}
    {references : List String}
    (label : plan.columns.map (Column.label plan.dataset.id) = references)
    (label_injective : ∀ a ∈ plan.columns, ∀ b ∈ plan.columns,
      a.label plan.dataset.id = b.label plan.dataset.id → a = b)
    (present : ∀ row ∈ plan.unsortedRows source, ∀ column ∈ plan.columns,
      ∃ cell, row.get? column = some cell)
    (h : plan.run source = .ok rows) : plan.Shows references source rows := by
  obtain ⟨working, sorts, _, rfl⟩ := run_eq_ok.mp h
  have perm := sortRows?_perm sorts
  refine ⟨label, label_injective, fun result mem => ?_, working, sorts, ?_⟩
  · obtain ⟨row, hr, rfl⟩ := List.mem_map.mp mem
    rw [WorkingRow.names_project (present row (perm.mem_iff.mp hr)), label]
  · rw [List.forall₂_map_right_iff, List.forall₂_same]
    intro row hr column hc
    obtain ⟨cell, found⟩ := present row (perm.mem_iff.mp hr) column hc
    have unique := fun other ho => label_injective other ho column hc
    exact ⟨cell, found, by rw [WorkingRow.get?_project unique, if_pos hc, found]⟩

/-- If nothing is grouped, the result rows show fields of rows that the filter has selected. -/
theorem Plan.Shows.exists_picked {plan : Plan} {references : List String} {source : List Row}
    {rows : List ResultRow} (shows : plan.Shows references source rows) (typed : plan.WellTyped)
    (ungrouped : plan.transformation = none) :
    ∃ picked, picked.Perm (plan.filter.select source) ∧
      List.Forall₂ (ResultRow.ShowsFields plan.dataset.id references) picked rows := by
  obtain ⟨working, sorts, cells⟩ := shows.cells
  rw [workingRows?, unsortedRows, ungrouped] at sorts
  obtain ⟨picked, perm, rfl⟩ := exists_perm_of_sortRows? sorts
  refine ⟨picked, perm, ?_⟩
  rw [List.forall₂_map_left_iff] at cells
  refine cells.imp fun row result shown reference mem => ?_
  obtain ⟨column, hc, rfl⟩ := List.mem_map.mp (shows.label ▸ mem)
  obtain ⟨cell, found, result_cell⟩ := shown column hc
  have scope := typed.column column hc
  rw [ungrouped] at scope
  cases scope with
  | field => exact ⟨_, cell, rfl, found, result_cell⟩

theorem Query.IsOptionalObject.eq_none {document : Option Json}
    {grouping : Option (List (String × Json))} (h : IsOptionalObject document grouping)
    (absent : document = none ∨ document = some .null) : grouping = none := by
  cases h with
  | absent => rfl
  | null => rfl
  | object => simp at absent

namespace Catalog

/-- Every row of an answer has the columns that the query asks for, and without a transformation
the cells of a row of the dataset. -/
theorem exists_shows {catalog : Catalog} (reachable : catalog.Reachable) {document : Json}
    {rows : List ResultRow} (h : catalog.answer document = .ok rows) :
    ∃ plan source references, Plan.ofDocument catalog.descriptors document = .ok plan ∧
      catalog.rows? plan.dataset.id = some source ∧
      (document.get? "OPTIONS").bind (Json.get? "COLUMNS") =
        some (.array (references.map .string)) ∧
      plan.Shows references source rows ∧
      (document.get? "TRANSFORMATIONS" = none ∨ document.get? "TRANSFORMATIONS" = some .null →
        ∃ picked, picked.Perm (plan.filter.select source) ∧
          List.Forall₂ (ResultRow.ShowsFields plan.dataset.id references) picked rows) := by
  obtain ⟨plan, source, hp, found, run⟩ := answer_eq_ok.mp h
  obtain ⟨parts, outlines, reads⟩ := Query.ofDocument_eq_ok_plan.mp hp
  obtain ⟨members, rfl, _, _, options, grouping⟩ := outlines.sections
  have typed := reads.wellTyped outlines
  have present : ∀ row ∈ plan.unsortedRows source, ∀ column ∈ plan.columns,
      ∃ cell, row.get? column = some cell := by
    obtain ⟨_, same, admitted⟩ := reachable.valid.exists_rows hp
    obtain rfl := Option.some.inj (found.symm.trans same)
    exact (typed.noFallback admitted).column
  have shows : plan.Shows parts.columns source rows := by
    refine Plan.shows_run ?_ (fun a ha b hb => ?_) present run
    · rw [reads.dataset]
      exact Query.map_label reads.columns
    · rw [reads.dataset]
      exact Query.label_injective reads.columns ha hb
  refine ⟨plan, source, parts.columns, hp, found, ?_, shows, fun absent => ?_⟩
  · rw [Json.get?, options, Option.bind_some]
    exact outlines.options.columns_eq
  · have none := grouping.eq_none absent
    have transformation := reads.transformation
    rw [none] at transformation
    refine shows.exists_picked typed ?_
    cases h : plan.transformation with
    | none => rfl
    | some t =>
      rw [h] at transformation
      nomatch transformation

/-- A query for the departments by average, which are asked for twice. -/
def byAverage : Json :=
  .object
    [("WHERE", .object []),
      ("OPTIONS", .object
        [("COLUMNS", .array
          [.string "sections_dept", .string "sections_avg", .string "sections_dept"]),
          ("ORDER", .string "sections_avg")])]

theorem answer_byAverage :
    courses.answer byAverage = .ok
      [⟨[("sections_dept", .text "math"), ("sections_avg", .integer 70)], by decide⟩,
        ⟨[("sections_dept", .text "cpsc"), ("sections_avg", .integer 80)], by decide⟩,
        ⟨[("sections_dept", .text "cpsc"), ("sections_avg", .integer 90)], by decide⟩] := by
  cbv

theorem exists_shows_byAverage :
    ∃ rows plan source references, courses.answer byAverage = .ok rows ∧
      Plan.ofDocument courses.descriptors byAverage = .ok plan ∧
      courses.rows? plan.dataset.id = some source ∧
      (byAverage.get? "OPTIONS").bind (Json.get? "COLUMNS") =
        some (.array (references.map .string)) ∧
      plan.Shows references source rows ∧
      (byAverage.get? "TRANSFORMATIONS" = none ∨ byAverage.get? "TRANSFORMATIONS" = some .null →
        ∃ picked, picked.Perm (plan.filter.select source) ∧
          List.Forall₂ (ResultRow.ShowsFields plan.dataset.id references) picked rows) := by
  obtain ⟨plan, source, references, h⟩ := exists_shows reachable_courses answer_byAverage
  exact ⟨_, plan, source, references, answer_byAverage, h⟩

end Catalog

end CampusQuery
