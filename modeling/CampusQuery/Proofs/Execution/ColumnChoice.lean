import CampusQuery.Proofs.Execution.Answers
import CampusQuery.Proofs.Query.Agreement

/-!
# What the columns decide

The columns of a query also name its dataset, and they limit what it may be ordered by. Once two
queries that differ in their columns alone (`SameButColumns`) are accepted and have a column in
common, none of this makes a difference: their plans are the same but for the columns
(`eq_of_sameButColumns`), so their answers show the same rows in the same order
(`answer_sameButColumns`).

That the dataset is the same comes from the column in common or, if rows are grouped, from a group
field, for a column may then be an apply key, which says nothing of the dataset
(`exists_refers`).
-/

namespace CampusQuery

namespace Query

/-- The query asks for a column by the given string. -/
def HasColumn (document : Json) (reference : String) : Prop :=
  ∃ items, (document.get? "OPTIONS").bind (Json.get? "COLUMNS") = some (.array items) ∧
    .string reference ∈ items

/-- Two documents with the same members but for their options, which are the same but for the
columns. -/
structure SameButColumns (a b : Json) : Prop where
  sections : ∀ name, name ≠ "OPTIONS" → a.get? name = b.get? name
  options : ∀ name, name ≠ "COLUMNS" →
    (a.get? "OPTIONS").bind (Json.get? name) = (b.get? "OPTIONS").bind (Json.get? name)

theorem IsOptionalObject.unique {document : Option Json}
    {grouping other : Option (List (String × Json))} (h : IsOptionalObject document grouping)
    (h' : IsOptionalObject document other) : grouping = other := by
  cases h <;> cases h' <;> rfl

theorem IsRule.unique {dataset : Descriptor} {item : Json} {key other : String}
    (h : IsRule dataset item key) (h' : IsRule dataset item other) : key = other := by
  obtain ⟨_, _, _, rfl, _⟩ := h
  obtain ⟨_, _, _, same, _⟩ := h'
  simp only [Json.object.injEq, List.cons.injEq, Prod.mk.injEq] at same
  exact same.1.1

theorem IsGrouping.unique {dataset : Descriptor} {grouping : Option (List (String × Json))}
    {group other : Option (List String)} {keys others : List String}
    (h : IsGrouping dataset grouping group keys) (h' : IsGrouping dataset grouping other others) :
    keys = others := by
  cases h with
  | none =>
    cases h'
    rfl
  | some h =>
    cases h' with
    | some h' =>
      obtain ⟨items, found, each⟩ := h.rules
      obtain ⟨_, found', each'⟩ := h'.rules
      rw [found, Option.some.injEq, Json.array.injEq] at found'
      subst found'
      have same := forall₂_transfer each each' fun _ _ _ h h' => h'.unique h
      rw [List.forall₂_eq_eq_eq] at same
      exact same.symm

theorem Refers.qualifier_eq {dataset : Descriptor} {reference : String} {field : Field}
    (h : Refers dataset reference field) (hid : '_' ∉ dataset.id.toList) :
    qualifier reference = dataset.id := by
  rw [h.2, qualifier_append hid]

section Parts

variable {datasets : List Descriptor} {document : Json} {parts : Parts} {plan : Plan}

theorem Parts.Outlines.column_mem (h : parts.Outlines datasets document) {reference : String}
    (shown : HasColumn document reference) : reference ∈ parts.columns := by
  obtain ⟨members, rfl, _, _, options, _⟩ := h.sections
  obtain ⟨items, listed, mem⟩ := shown
  rw [Json.get?, options, Option.bind_some, Json.get?, h.options.columns_eq, Option.some.injEq,
    Json.array.injEq] at listed
  rw [← listed] at mem
  simpa using mem

/-- Two queries with the same grouping and with a column in common refer to fields of their datasets
by the same string: by a group field, or by that column if nothing is grouped. -/
theorem Parts.Outlines.exists_refers {a b : Json} {parts' : Parts}
    (h : parts.Outlines datasets a) (h' : parts'.Outlines datasets b)
    (same : parts.grouping = parts'.grouping) {column : String}
    (shown : HasColumn a column) (shown' : HasColumn b column) :
    ∃ reference field field', Refers parts.dataset reference field ∧
      Refers parts'.dataset reference field' := by
  have is := h.options.columns_ok column (h.column_mem shown)
  have is' := h'.options.columns_ok column (h'.column_mem shown')
  have grouped := h.grouping
  have grouped' := same ▸ h'.grouping
  generalize parts.grouping = grouping, parts.group = group, parts.keys = keys at *
  generalize parts'.group = group', parts'.keys = keys' at *
  cases grouped with
  | none =>
    cases grouped'
    obtain ⟨⟨field, found⟩, _⟩ := is.resolve_left List.not_mem_nil
    obtain ⟨⟨field', found'⟩, _⟩ := is'.resolve_left List.not_mem_nil
    exact ⟨column, field, field', found, found'⟩
  | some grouped =>
    cases grouped' with
    | some grouped' =>
      have listed := grouped.group_eq.symm.trans grouped'.group_eq
      rw [Option.some.injEq, Json.array.injEq, List.map_inj_right fun _ _ => Json.string.inj]
        at listed
      subst listed
      obtain ⟨reference, mem⟩ := List.exists_mem_of_ne_nil _ grouped.group_nonempty
      obtain ⟨field, found⟩ := grouped.group_refers reference mem
      obtain ⟨field', found'⟩ := grouped'.group_refers reference mem
      exact ⟨reference, field, field', found, found'⟩

/-- Queries that differ in their columns alone have the same conditions, grouping and order. -/
theorem SameButColumns.parts_eq {a b : Json} {parts' : Parts} (same : SameButColumns a b)
    (h : parts.Outlines datasets a) (h' : parts'.Outlines datasets b) :
    parts.conditions = parts'.conditions ∧ parts.grouping = parts'.grouping ∧
      Json.fieldOf? "ORDER" parts.options = Json.fieldOf? "ORDER" parts'.options := by
  obtain ⟨members, rfl, _, conditions, options, grouping⟩ := h.sections
  obtain ⟨members', rfl, _, conditions', options', grouping'⟩ := h'.sections
  have sameConditions : Json.fieldOf? "WHERE" members = Json.fieldOf? "WHERE" members' :=
    same.sections "WHERE" (by decide)
  have sameGrouping :
      Json.fieldOf? "TRANSFORMATIONS" members = Json.fieldOf? "TRANSFORMATIONS" members' :=
    same.sections "TRANSFORMATIONS" (by decide)
  have sameOrder := same.options "ORDER" (by decide)
  rw [conditions, conditions', Option.some.injEq, Json.object.injEq] at sameConditions
  rw [Json.get?, options, Json.get?, options'] at sameOrder
  exact ⟨sameConditions, grouping.unique (sameGrouping ▸ grouping'), sameOrder⟩

theorem Parts.Outlines.dataset_eq {a b : Json} {parts' : Parts}
    (h : parts.Outlines datasets a) (h' : parts'.Outlines datasets b)
    (same : parts.grouping = parts'.grouping) {column : String}
    (shown : HasColumn a column) (shown' : HasColumn b column) :
    parts.dataset = parts'.dataset := by
  obtain ⟨reference, field, field', found, found'⟩ := h.exists_refers h' same shown shown'
  have id : parts.dataset.id = parts'.dataset.id :=
    (found.qualifier_eq h.target.not_mem).symm.trans (found'.qualifier_eq h'.target.not_mem)
  have first := h.target.2
  rw [id, h'.target.2] at first
  exact (Option.some.inj first).symm

end Parts

/-! ## Plans -/

section Reads

variable {dataset : Descriptor} (hid : '_' ∉ dataset.id.toList)

include hid

theorem ReadsConditions.unique {members : List (String × Json)} {filter other : Filter}
    (h : ReadsConditions dataset members filter) (h' : ReadsConditions dataset members other) :
    filter = other :=
  Except.ok.inj (((readConditions_eq_ok hid).mpr h).symm.trans ((readConditions_eq_ok hid).mpr h'))

theorem ReadsOrder.unique {keys : ApplyKeys} {document : Option Json} {order other : Option Order}
    (h : ReadsOrder dataset keys.toList document order)
    (h' : ReadsOrder dataset keys.toList document other) : order = other :=
  Except.ok.inj (((readOrder_eq_ok hid).mpr h).symm.trans ((readOrder_eq_ok hid).mpr h'))

theorem ReadsTransformation.unique {members : List (String × Json)} {t other : Transformation}
    (h : ReadsTransformation dataset members t) (h' : ReadsTransformation dataset members other) :
    t = other :=
  Except.ok.inj
    (((readTransformation_eq_ok hid).mpr h).symm.trans ((readTransformation_eq_ok hid).mpr h'))

theorem unique_transformation {grouping : Option (List (String × Json))}
    {t other : Option Transformation} (h : Option.Rel (ReadsTransformation dataset) grouping t)
    (h' : Option.Rel (ReadsTransformation dataset) grouping other) : t = other := by
  cases h with
  | none =>
    cases h'
    rfl
  | some h =>
    cases h' with
    | some h' => rw [h.unique hid h']

end Reads

/-- The plans of two queries that differ in their columns alone, and have one of them in common,
differ in their columns alone. -/
theorem eq_of_sameButColumns {datasets : List Descriptor} {a b : Json} {plan plan' : Plan}
    (planned : Plan.ofDocument datasets a = .ok plan)
    (planned' : Plan.ofDocument datasets b = .ok plan') (same : SameButColumns a b)
    {column : String} (shown : HasColumn a column) (shown' : HasColumn b column) :
    plan' = { plan with columns := plan'.columns } := by
  obtain ⟨parts, outlines, reads⟩ := ofDocument_eq_ok_plan.mp planned
  obtain ⟨parts', outlines', reads'⟩ := ofDocument_eq_ok_plan.mp planned'
  obtain ⟨conditions, grouping, order⟩ := same.parts_eq outlines outlines'
  have dataset : parts.dataset = parts'.dataset :=
    outlines.dataset_eq outlines' grouping shown shown'
  have keys : parts.keys = parts'.keys := by
    have grouped := outlines'.grouping
    rw [← dataset, ← grouping] at grouped
    exact outlines.grouping.unique grouped
  obtain ⟨applyKeys, hk⟩ := outlines.grouping.exists_keys
  have hid := outlines.target.not_mem
  have filter : plan.filter = plan'.filter := by
    have read := reads'.filter
    rw [← dataset, ← conditions] at read
    exact reads.filter.unique hid read
  have sameOrder : plan.order = plan'.order := by
    have first := reads.order
    have read := reads'.order
    rw [← dataset, ← keys, ← order, ← hk] at read
    rw [← hk] at first
    exact first.unique hid read
  have transformation : plan.transformation = plan'.transformation := by
    have read := reads'.transformation
    rw [← dataset, ← grouping] at read
    exact unique_transformation hid reads.transformation read
  have sameDataset : plan.dataset = plan'.dataset :=
    reads.dataset.trans (dataset.trans reads'.dataset.symm)
  rw [sameDataset, filter, sameOrder, transformation]

/-- A column of a query is one of the plan, which is labelled with the string that it is asked for
by. -/
theorem exists_column {datasets : List Descriptor} {document : Json} {plan : Plan}
    (planned : Plan.ofDocument datasets document = .ok plan) {reference : String}
    (shown : HasColumn document reference) :
    ∃ column ∈ plan.columns, Resolves plan.dataset plan.applyKeys reference column := by
  obtain ⟨parts, outlines, reads⟩ := ofDocument_eq_ok_plan.mp planned
  have keys : plan.applyKeys = parts.keys := outlines.grouping.keys_eq reads.transformation
  obtain ⟨column, mem, resolves⟩ :=
    exists_of_mem_right reads.columns.flip (outlines.column_mem shown)
  rw [reads.dataset, keys]
  exact ⟨column, mem, resolves⟩

/-- A row of an answer has a cell under each column that is the cell of the row it shows. -/
theorem get?_project_of_plan {datasets : List Descriptor} {document : Json} {plan : Plan}
    (planned : Plan.ofDocument datasets document = .ok plan) (row : WorkingRow) {column : Column}
    (mem : column ∈ plan.columns) :
    (row.project plan.dataset.id plan.columns).get? (column.label plan.dataset.id) =
      row.get? column := by
  obtain ⟨parts, _, reads⟩ := ofDocument_eq_ok_plan.mp planned
  have unique : ∀ other ∈ plan.columns,
      other.label plan.dataset.id = column.label plan.dataset.id → other = column := by
    rw [reads.dataset]
    exact fun other ho => label_injective reads.columns ho mem
  rw [WorkingRow.get?_project unique, if_pos mem]

end Query

namespace Catalog

/-- What a query shows under a column does not depend on its other columns: two answered queries
that differ in their columns alone, and have one of them in common, show as many rows, and in each
place the same cell under every column in common. -/
theorem answer_sameButColumns {catalog : Catalog} (reachable : catalog.Reachable) {a b : Json}
    (same : Query.SameButColumns a b) {column : String} (shown : Query.HasColumn a column)
    (shown' : Query.HasColumn b column) {rows rows' : List ResultRow}
    (answered : catalog.answer a = .ok rows) (answered' : catalog.answer b = .ok rows') :
    rows.length = rows'.length ∧
      List.Forall₂ (fun row row' => ∀ reference, Query.HasColumn a reference →
        Query.HasColumn b reference → ∃ cell,
          row.get? reference = some cell ∧ row'.get? reference = some cell) rows rows' := by
  obtain ⟨plan, source, planned, found, run⟩ := answer_eq_ok.mp answered
  obtain ⟨plan', source', planned', found', run'⟩ := answer_eq_ok.mp answered'
  have alike := Query.eq_of_sameButColumns planned planned' same shown shown'
  have dataset : plan'.dataset = plan.dataset := by rw [alike]
  have keys : plan'.applyKeys = plan.applyKeys := by rw [alike]; rfl
  have working : plan'.workingRows? source = plan.workingRows? source := by rw [alike]; rfl
  obtain rfl : source = source' := Option.some.inj (found.symm.trans (dataset ▸ found'))
  have present : ∀ row ∈ plan.unsortedRows source, ∀ column ∈ plan.columns,
      ∃ cell, row.get? column = some cell := by
    obtain ⟨_, own, admitted⟩ := reachable.valid.exists_rows planned
    obtain rfl := Option.some.inj (found.symm.trans own)
    exact ((Query.wellTyped planned).noFallback admitted).column
  obtain ⟨sorted, sorts, _, rfl⟩ := Plan.run_eq_ok.mp run
  obtain ⟨_, sorts', _, rfl⟩ := Plan.run_eq_ok.mp run'
  obtain rfl := Option.some_inj.mp (sorts.symm.trans (working.symm.trans sorts'))
  refine ⟨by simp, ?_⟩
  rw [List.forall₂_map_left_iff, List.forall₂_map_right_iff, List.forall₂_same]
  intro row mem reference asked asked'
  obtain ⟨column, hc, resolves⟩ := Query.exists_column planned asked
  obtain ⟨column', hc', resolves'⟩ := Query.exists_column planned' asked'
  rw [dataset, keys] at resolves'
  obtain rfl := resolves.unique resolves'
  obtain ⟨cell, hcell⟩ := present row ((sortRows?_perm sorts).mem_iff.mp mem) column hc
  have here := Query.get?_project_of_plan planned row hc
  have there := Query.get?_project_of_plan planned' row hc'
  rw [resolves.label_eq, hcell] at here
  rw [dataset, resolves.label_eq, hcell] at there
  exact ⟨cell, here, dataset ▸ there⟩

/-- The courses by average, their titles instead of their departments. -/
def titlesByAverage : Json :=
  .object
    [("WHERE", .object []),
      ("OPTIONS", .object
        [("COLUMNS", .array [.string "sections_title", .string "sections_avg"]),
          ("ORDER", .string "sections_avg")])]

theorem answer_titlesByAverage :
    courses.answer titlesByAverage = .ok
      [⟨[("sections_title", .text "algebra"), ("sections_avg", .integer 70)], by decide⟩,
        ⟨[("sections_title", .text "intro"), ("sections_avg", .integer 80)], by decide⟩,
        ⟨[("sections_title", .text "theory"), ("sections_avg", .integer 90)], by decide⟩] := by
  cbv

theorem sameButColumns_titlesByAverage : Query.SameButColumns byAverage titlesByAverage where
  sections name other := by
    simp [byAverage, titlesByAverage, Json.get?, Json.fieldOf?, Ne.symm other]
  options name other := by
    simp [byAverage, titlesByAverage, Json.get?, Json.fieldOf?, Ne.symm other]

theorem answer_sameButColumns_byAverage :
    courses.Reachable ∧ Query.SameButColumns byAverage titlesByAverage ∧
      Query.HasColumn byAverage "sections_avg" ∧ Query.HasColumn titlesByAverage "sections_avg" ∧
      ∃ rows rows', courses.answer byAverage = .ok rows ∧
        courses.answer titlesByAverage = .ok rows' ∧ rows.length = rows'.length ∧
        List.Forall₂ (fun row row' => ∀ reference, Query.HasColumn byAverage reference →
          Query.HasColumn titlesByAverage reference → ∃ cell,
            row.get? reference = some cell ∧ row'.get? reference = some cell) rows rows' := by
  have shown : Query.HasColumn byAverage "sections_avg" := ⟨_, rfl, by simp⟩
  have shown' : Query.HasColumn titlesByAverage "sections_avg" := ⟨_, rfl, by simp⟩
  exact ⟨reachable_courses, sameButColumns_titlesByAverage, shown, shown', _, _, answer_byAverage,
    answer_titlesByAverage, answer_sameButColumns reachable_courses sameButColumns_titlesByAverage
      shown shown' answer_byAverage answer_titlesByAverage⟩

end Catalog

end CampusQuery
