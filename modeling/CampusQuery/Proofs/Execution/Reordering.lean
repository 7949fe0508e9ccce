import CampusQuery.Proofs.Execution.Aggregates
import CampusQuery.Proofs.Execution.Ordering
import CampusQuery.Proofs.Execution.Soundness

/-!
# Rows in another order

Groups and their rows do not depend on the order of the rows that are grouped, as long as cells are
exact and no sum or mean is over numbers and texts together (`Transformation.Separates`): the same
groups come out, perhaps in another order (`transformRows_perm`). If they are then sorted by the
group fields, that order is the same too (`Plan.run_perm`). `Plan.run_reordered` says both, and that
plans that are made from documents need no proviso on the rows of their dataset.

The provisos are needed (`Plan.run_mixed`). A sum that meets a text is taken in binary64 arithmetic,
and a number and a text are level, so that rows keep the order they had.
-/

namespace CampusQuery

variable {rows rows' : List Row}

/-- No sum or mean is taken over numbers and texts together. -/
def Transformation.Separates (t : Transformation) (rows : List Row) : Prop :=
  ∀ members ∈ groupRows t.group rows, ∀ rule ∈ t.rules,
    rule.aggregate = .sum ∨ rule.aggregate = .avg → Uniform rule.field members

section Group

variable (perm : rows.Perm rows') (exact : ∀ row ∈ rows, row.Exact) (few : rows.length < 2 ^ 32)

include perm exact few

theorem ApplyRule.eval_perm (rule : ApplyRule)
    (uniform : rule.aggregate = .sum ∨ rule.aggregate = .avg → Uniform rule.field rows) :
    rule.eval rows = rule.eval rows' := by
  have source {cell : Cell} (mem : cell ∈ rows.filterMap fun row => row[rule.field]?) :
      ∃ row ∈ rows, row[rule.field]? = some cell := List.mem_filterMap.mp mem
  refine rule.aggregate.eval_perm (perm.filterMap _) (fun cell mem => ?_)
    (Nat.lt_of_le_of_lt (List.length_filterMap_le _ _) few) fun total x hx y hy => ?_
  · obtain ⟨row, hr, hc⟩ := source mem
    exact exact row hr rule.field cell hc
  · obtain ⟨a, ha, hx⟩ := source hx
    obtain ⟨b, hb, hy⟩ := source hy
    exact uniform total a ha b hb x y hx hy

/-- Rows that share a group key become the same group row in any order. -/
theorem Transformation.collapse_perm (t : Transformation)
    (same : ∀ a ∈ rows, ∀ b ∈ rows, a.groupKey t.group = b.groupKey t.group)
    (uniform : ∀ rule ∈ t.rules, rule.aggregate = .sum ∨ rule.aggregate = .avg →
      Uniform rule.field rows) :
    t.collapse rows = t.collapse rows' := by
  have fields : rows.head?.map (·.restrict t.group) = rows'.head?.map (·.restrict t.group) := by
    rcases rows with - | ⟨first, rest⟩
    · rw [perm.nil_eq]
    rcases rows' with - | ⟨first', rest'⟩
    · exact absurd perm.symm.nil_eq (List.cons_ne_nil _ _).symm
    -- The first members may be two rows, but of one group.
    have mem : first' ∈ first :: rest := perm.mem_iff.mpr List.mem_cons_self
    exact congrArg some ((exact first List.mem_cons_self).restrict_eq (exact first' mem)
      (same first List.mem_cons_self first' mem))
  have values := List.foldl_ext
    (fun (results : Row) (rule : ApplyRule) => results.insert rule.key (rule.eval rows))
    (fun results rule => results.insert rule.key (rule.eval rows')) ∅
    fun results rule mem => by rw [rule.eval_perm perm exact few (uniform rule mem)]
  rw [collapse, collapse, fields, values]

end Group

/-- The same group rows come out, whatever the order of the rows. -/
theorem transformRows_perm (perm : rows.Perm rows') (exact : ∀ row ∈ rows, row.Exact)
    (few : rows.length < 2 ^ 32) {t : Transformation} (separates : t.Separates rows) :
    (transformRows (some t) rows).Perm (transformRows (some t) rows') := by
  have keys := eraseDups_perm (perm.map (Row.groupKey t.group))
  -- Key by key the members are the same in another order, so the keys of `rows` give either list.
  have groups : (rows.map (Row.groupKey t.group)).eraseDups.map (fun key =>
        t.collapse (rows.filter (Row.groupKey t.group · = key))) =
      (rows.map (Row.groupKey t.group)).eraseDups.map fun key =>
        t.collapse (rows'.filter (Row.groupKey t.group · = key)) := by
    refine List.map_congr_left fun key mem => ?_
    have member : rows.filter (Row.groupKey t.group · = key) ∈ groupRows t.group rows := by
      rw [groupRows_eq]
      exact List.mem_map_of_mem mem
    refine t.collapse_perm (perm.filter _) (fun row hr => exact row (List.mem_of_mem_filter hr))
      (Nat.lt_of_le_of_lt (List.length_filter_le _ _) few) (fun a ha b hb => ?_)
      fun rule hr => separates _ member rule hr
    have ka : a.groupKey t.group = key := by simpa using (List.mem_filter.mp ha).2
    have kb : b.groupKey t.group = key := by simpa using (List.mem_filter.mp hb).2
    rw [ka, kb]
  rw [transformRows, transformRows, Transformation.run, Transformation.run, groupRows_eq,
    groupRows_eq, List.map_map, List.map_map]
  exact (List.Perm.of_eq groups).trans (keys.map _)

/-- A group row shows the cells of a row in the group fields, and is told by its group key. -/
theorem exists_of_mem_transformRows {t : Transformation} {working : WorkingRow}
    (mem : working ∈ transformRows (some t) rows) :
    ∃ row ∈ rows,
      working = t.collapse (rows.filter (Row.groupKey t.group · = row.groupKey t.group)) ∧
      ∀ name ∈ t.group, working.get? (.field name) = row[name]? := by
  obtain ⟨members, hm, rfl⟩ := List.mem_map.mp mem
  obtain ⟨other, _, rfl⟩ := mem_groupRows.mp hm
  obtain ⟨row, rest, members⟩ := List.exists_cons_of_ne_nil (ne_nil_of_mem_groupRows hm)
  obtain ⟨hr, same⟩ := List.mem_filter.mp (members ▸ List.mem_cons_self (a := row))
  refine ⟨row, hr, by rw [of_decide_eq_true same], fun name mem => ?_⟩
  rw [members, t.get?_collapse_field, if_pos mem]

/-- The keys of the order are the group fields. -/
def Order.ByGroup (order : Order) (t : Transformation) : Prop :=
  ∀ column, column ∈ order.keys ↔ ∃ name ∈ t.group, column = .field name

section Sorting

variable {order : Order} {t : Transformation} (byGroup : order.ByGroup t)

include byGroup

/-- Group rows are told by their ranks. -/
theorem Order.ByGroup.eq_of_rank {a b : WorkingRow} (ha : a ∈ transformRows (some t) rows)
    (hb : b ∈ transformRows (some t) rows) (same : order.rank a = order.rank b) : a = b := by
  obtain ⟨x, _, rfl, cells⟩ := exists_of_mem_transformRows ha
  obtain ⟨y, _, rfl, cells'⟩ := exists_of_mem_transformRows hb
  have key : x.groupKey t.group = y.groupKey t.group := by
    refine List.map_congr_left fun name mem => ?_
    have level := List.map_inj_left.mp same (.field name) ((byGroup _).mpr ⟨name, mem, rfl⟩)
    rwa [cells name mem, cells' name mem] at level
  rw [key]

theorem Order.ByGroup.comparable (exact : ∀ row ∈ rows, row.Exact)
    (uniform : ∀ name ∈ t.group, Uniform name rows) {a b : WorkingRow}
    (ha : a ∈ transformRows (some t) rows) (hb : b ∈ transformRows (some t) rows)
    {key : Column} (hk : key ∈ order.keys) : Comparable key a b := by
  obtain ⟨name, mem, rfl⟩ := (byGroup key).mp hk
  obtain ⟨x, hx, rfl, cells⟩ := exists_of_mem_transformRows ha
  obtain ⟨y, hy, rfl, cells'⟩ := exists_of_mem_transformRows hb
  intro u v hu hv
  rw [cells name mem] at hu
  rw [cells' name mem] at hv
  exact ⟨exact x hx name u hu, exact y hy name v hv, uniform name mem x hx y hy u v hu hv⟩

end Sorting

/-- A plan that sorts groups by the group fields has the same outcome in any order of the rows. -/
theorem Plan.run_perm (perm : rows.Perm rows') (exact : ∀ row ∈ rows, row.Exact)
    (few : rows.length < 2 ^ 32) {plan : Plan} {t : Transformation} {order : Order}
    (grouped : plan.transformation = some t) (ordered : plan.order = some order)
    (byGroup : order.ByGroup t) (separates : t.Separates (plan.filter.select rows))
    (uniform : ∀ name ∈ t.group, Uniform name (plan.filter.select rows)) :
    plan.run rows = plan.run rows' := by
  have sub := plan.filter.select_sublist rows
  have exact : ∀ row ∈ plan.filter.select rows, row.Exact := fun row hr => exact row (sub.subset hr)
  have few := Nat.lt_of_le_of_lt sub.length_le few
  have groups := transformRows_perm (plan.filter.perm_select perm) exact few separates
  have sorted := Order.sort?_congr
    (fun _ ha _ hb _ hk => byGroup.comparable exact uniform ha hb hk) groups
    fun _ ha _ hb => byGroup.eq_of_rank ha hb
  have working : plan.workingRows? rows = plan.workingRows? rows' := by
    rw [workingRows?, workingRows?, unsortedRows, unsortedRows, grouped, ordered]
    exact sorted
  rw [run, run, working]

/-! ## Rows of a dataset -/

section Typed

variable {kind : Kind} (admitted : ∀ row ∈ rows, kind.Admits row)

include admitted

theorem Kind.HasField.uniform {name : String} (has : kind.HasField name) : Uniform name rows := by
  obtain ⟨field, found, rfl⟩ := has
  have admits {row : Row} (hr : row ∈ rows) {cell : Cell} (hc : row[field.name]? = some cell) :
      field.type.admits cell = true := by
    obtain ⟨other, ho, h⟩ := (admitted row hr).cell field found
    exact Option.some.inj (ho.symm.trans hc) ▸ h
  exact fun a ha b hb x y hx hy => FieldType.isNumber_eq (admits ha hx) (admits hb hy)

theorem Transformation.WellTyped.separates {t : Transformation} (typed : t.WellTyped kind) :
    t.Separates rows := by
  intro members hm rule hr _
  obtain ⟨field, found, name, _⟩ := typed.rule rule hr
  exact (Kind.HasField.uniform admitted ⟨field, found, name⟩).mono
    fun row mem => mem_of_mem_groupRows hm mem

end Typed

/-- Grouping does not depend on the order of the rows, and with the groups sorted by the group
fields the answer does not either, unless numbers and texts share a field that is summed up or
sorted by. In the rows of a dataset they never do. -/
theorem Plan.run_reordered (perm : rows.Perm rows') (exact : ∀ row ∈ rows, row.Exact)
    (few : rows.length < 2 ^ 32) :
    (∀ (filter : Filter) (t : Transformation), t.Separates (filter.select rows) →
      (transformRows (some t) (filter.select rows)).Perm
        (transformRows (some t) (filter.select rows'))) ∧
    (∀ (plan : Plan) (t : Transformation) (order : Order), plan.transformation = some t →
      plan.order = some order → order.ByGroup t → t.Separates (plan.filter.select rows) →
      (∀ name ∈ t.group, Uniform name (plan.filter.select rows)) →
      plan.run rows = plan.run rows') ∧
    ∀ (datasets : List Descriptor) (document : Json) (plan : Plan) (t : Transformation),
      Plan.ofDocument datasets document = .ok plan → plan.transformation = some t →
      (∀ row ∈ rows, plan.dataset.kind.Admits row) →
      (transformRows (some t) (plan.filter.select rows)).Perm
          (transformRows (some t) (plan.filter.select rows')) ∧
        ∀ order, plan.order = some order → order.ByGroup t → plan.run rows = plan.run rows' := by
  have groups (filter : Filter) (t : Transformation) (separates : t.Separates (filter.select rows)) :
      (transformRows (some t) (filter.select rows)).Perm
        (transformRows (some t) (filter.select rows')) :=
    transformRows_perm (filter.perm_select perm)
      (fun row hr => exact row ((filter.select_sublist rows).subset hr))
      (Nat.lt_of_le_of_lt (filter.select_sublist rows).length_le few) separates
  refine ⟨groups, fun plan t order grouped ordered byGroup separates uniform =>
    run_perm perm exact few grouped ordered byGroup separates uniform,
    fun datasets document plan t planned grouped admitted => ?_⟩
  have typed := (Query.wellTyped planned).transformation t grouped
  have selected : ∀ row ∈ plan.filter.select rows, plan.dataset.kind.Admits row :=
    fun row hr => admitted row ((plan.filter.select_sublist rows).subset hr)
  have separates := typed.separates selected
  exact ⟨groups plan.filter t separates, fun order ordered byGroup =>
    run_perm perm exact few grouped ordered byGroup separates
      fun name mem => (typed.group name mem).uniform selected⟩

/-! ## Departments -/

/-- The total of each department. -/
def Transformation.totals : Transformation := ⟨["dept"], [⟨"total", .sum, "avg"⟩]⟩

/-- A query for the departments in their order, with rules for the groups. -/
def byDepartment (rules : List Json) : Json :=
  .object
    [("WHERE", .object []),
      ("OPTIONS", .object
        [("COLUMNS", .array [.string "sections_dept"]), ("ORDER", .string "sections_dept")]),
      ("TRANSFORMATIONS", .object
        [("GROUP", .array [.string "sections_dept"]), ("APPLY", .array rules)])]

/-- The plan of a query for the departments. -/
def Plan.departments (rules : List ApplyRule) : Plan where
  dataset := Table.courses.descriptor
  filter := .all
  columns := [.field "dept"]
  order := some ⟨.up, [.field "dept"]⟩
  transformation := some ⟨["dept"], rules⟩

theorem byGroup_departments (rules : List ApplyRule) :
    (⟨.up, [.field "dept"]⟩ : Order).ByGroup ⟨["dept"], rules⟩ := by
  simp [Order.ByGroup]

theorem ofDocument_totals :
    Plan.ofDocument [Table.courses.descriptor]
        (byDepartment [.object [("total", .object [("SUM", .string "sections_avg")])]]) =
      .ok (.departments [⟨"total", .sum, "avg"⟩]) := by
  cbv

theorem ofDocument_departments :
    Plan.ofDocument [Table.courses.descriptor] (byDepartment []) = .ok (.departments []) := by
  cbv

/-- The courses in reverse give the same totals. -/
theorem Plan.run_reordered_courses :
    Table.courses.rows.Perm Table.courses.rows.reverse ∧
      (∀ row ∈ Table.courses.rows, row.Exact) ∧ Table.courses.rows.length < 2 ^ 32 ∧
      (transformRows (some .totals) Table.courses.rows).Perm
        (transformRows (some .totals) Table.courses.rows.reverse) ∧
      (departments Transformation.totals.rules).run Table.courses.rows =
        (departments Transformation.totals.rules).run Table.courses.rows.reverse := by
  have perm : Table.courses.rows.Perm Table.courses.rows.reverse :=
    (List.reverse_perm _).symm
  have exact : ∀ row ∈ Table.courses.rows, row.Exact := by decide
  have few : Table.courses.rows.length < 2 ^ 32 := by decide
  obtain ⟨_, _, typed⟩ := run_reordered perm exact few
  obtain ⟨groups, sorted⟩ :=
    typed _ _ _ .totals ofDocument_totals rfl Table.valid_courses.admits
  exact ⟨perm, exact, few, groups, sorted _ rfl (byGroup_departments _)⟩

/-- A row of a department with an average. -/
def Row.entry (dept avg : Cell) : Row := .ofList [("dept", dept), ("avg", avg)]

/-- Departments that are level are answered in the order they come in. -/
theorem Plan.run_departments {rows : List Row}
    (level : (transformRows (some ⟨["dept"], []⟩) rows).Pairwise fun a b =>
      Order.compareRows ⟨.up, [.field "dept"]⟩ a b = .eq) :
    (departments []).run rows =
      projectRows "sections" [.field "dept"] (transformRows (some ⟨["dept"], []⟩) rows) := by
  have working : (departments []).workingRows? rows =
      some (transformRows (some ⟨["dept"], []⟩) rows) :=
    Order.sort?_of_level level
  rw [run, working]
  rfl

/-- An average that ones are too small to change in binary64 arithmetic comes before two ones, or
after them, and a text is with them. Then two departments, a number and a text, change places. -/
theorem Plan.run_mixed :
    (∃ rows rows' : List Row, rows.Perm rows' ∧ (∀ row ∈ rows, row.Exact) ∧
      rows.length < 2 ^ 32 ∧ ¬ (transformRows (some .totals) (Filter.all.select rows)).Perm
        (transformRows (some .totals) (Filter.all.select rows'))) ∧
    ∃ plan rows rows', Plan.ofDocument [Table.courses.descriptor] (byDepartment []) = .ok plan ∧
      (∃ t order, plan.transformation = some t ∧ plan.order = some order ∧ order.ByGroup t) ∧
      rows.Perm rows' ∧ (∀ row ∈ rows, row.Exact) ∧ rows.length < 2 ^ 32 ∧
      plan.run rows ≠ plan.run rows' := by
  refine ⟨⟨[.integer (2 ^ 53), .integer 1, .integer 1, .text "none"].map (.entry (.text "cpsc")),
      [.integer 1, .integer 1, .integer (2 ^ 53), .text "none"].map (.entry (.text "cpsc")),
      List.Perm.map _ (by decide), by decide, by decide, by decide +kernel⟩,
    .departments [], [.entry (.integer 1) (.integer 80), .entry (.text "a") (.integer 80)],
    [.entry (.text "a") (.integer 80), .entry (.integer 1) (.integer 80)],
    ofDocument_departments, ⟨_, _, rfl, rfl, byGroup_departments []⟩, List.Perm.swap _ _ _,
    by decide, by decide, ?_⟩
  rw [run_departments (by decide), run_departments (by decide)]
  have first : projectRows "sections" [.field "dept"] (transformRows (some ⟨["dept"], []⟩)
        [.entry (.integer 1) (.integer 80), .entry (.text "a") (.integer 80)]) =
      .ok [⟨[("sections_dept", .integer 1)], by decide⟩,
        ⟨[("sections_dept", .text "a")], by decide⟩] := by rfl
  have last : projectRows "sections" [.field "dept"] (transformRows (some ⟨["dept"], []⟩)
        [.entry (.text "a") (.integer 80), .entry (.integer 1) (.integer 80)]) =
      .ok [⟨[("sections_dept", .text "a")], by decide⟩,
        ⟨[("sections_dept", .integer 1)], by decide⟩] := by rfl
  rw [first, last]
  nofun

end CampusQuery
