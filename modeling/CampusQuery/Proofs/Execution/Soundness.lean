import CampusQuery.Proofs.Catalog.History
import CampusQuery.Proofs.Execution.Columns
import CampusQuery.Proofs.Execution.Ordering

/-!
# Plans run without fallbacks

Every stage of a run has an answer ready for a cell that is not there or is of the wrong type: a
comparison is false, an aggregate of nothing is zero, a column is left out, rows are level.
`Plan.NoFallback` says that a run comes to none of these, and `exists_noFallback` that it holds of
every plan that is made against the datasets of a catalog and run on the rows of its own.

It holds of each stage by itself: `Filter.WellTyped.finds` of filters, `ApplyRule.WellTyped.finds`
of rules and `exists_cells` of columns.
-/

namespace CampusQuery

/-- Every comparison in a filter finds a number in the row, and every pattern a text. -/
inductive Filter.Finds (row : Row) : Filter → Prop
  | all : Finds row .all
  | and {children : List Filter} (each : ∀ child ∈ children, Finds row child) :
    Finds row (.and children)
  | or {children : List Filter} (each : ∀ child ∈ children, Finds row child) :
    Finds row (.or children)
  | not {child : Filter} (h : Finds row child) : Finds row (.not child)
  | compare {comparison : Comparison} {field : String} {literal : Binary64} {cell : Cell}
    (found : row[field]? = some cell) (number : cell.isNumber = true) :
    Finds row (.compare comparison field literal)
  | is {field : String} {pattern : Pattern} {s : String} (found : row[field]? = some (.text s)) :
    Finds row (.is field pattern)

/-- A rule is evaluated on one cell of each member, and on numbers unless it counts. -/
structure ApplyRule.Finds (rule : ApplyRule) (members : List Row) (cells : List Cell) : Prop where
  each : List.Forall₂ (fun row cell => row[rule.field]? = some cell) members cells
  number : rule.aggregate = .count ∨ ∀ cell ∈ cells, cell.isNumber = true
  eval : rule.eval members = rule.aggregate.eval cells

/-- A run of the plan on the rows finds all cells that it looks for, of the types that it expects.
The rows that are projected are those that are ordered, in whichever order they come. -/
structure Plan.NoFallback (plan : Plan) (rows : List Row) : Prop where
  filter : ∀ row ∈ rows, plan.filter.Finds row
  group : ∀ t ∈ plan.transformation, ∀ members ∈ groupRows t.group (plan.filter.select rows),
    members ≠ []
  rule : ∀ t ∈ plan.transformation, ∀ members ∈ groupRows t.group (plan.filter.select rows),
    ∀ rule ∈ t.rules, ∃ cells, cells ≠ [] ∧ rule.Finds members cells
  order : ∀ order ∈ plan.order, ∀ key ∈ order.keys,
    ∀ a ∈ plan.unsortedRows rows, ∀ b ∈ plan.unsortedRows rows,
      ∃ x y, a.get? key = some x ∧ b.get? key = some y ∧ x.isNumber = y.isNumber
  column : ∀ row ∈ plan.unsortedRows rows, ∀ column ∈ plan.columns,
    ∃ cell, row.get? column = some cell
  projected : ∀ working ∈ plan.workingRows? rows, working.Perm (plan.unsortedRows rows)

theorem Filter.WellTyped.finds {kind : Kind} {filter : Filter} (typed : filter.WellTyped kind)
    {row : Row} (admitted : kind.Admits row) : filter.Finds row := by
  induction typed with
  | and _ _ ih => exact .and ih
  | or _ _ ih => exact .or ih
  | not _ ih => exact .not ih
  | compare comparison literal found numeric =>
    obtain ⟨cell, hc, number⟩ := admitted.numeric found numeric
    exact .compare hc number
  | is found text plain =>
    obtain ⟨s, hc⟩ := admitted.text found text
    exact .is hc

theorem filterMap_of_forall₂ {α β : Type} {f : α → Option β} {items : List α} {results : List β}
    (each : List.Forall₂ (fun a b => f a = some b) items results) :
    items.filterMap f = results := by
  induction each with
  | nil => rfl
  | cons h _ ih => rw [List.filterMap_cons_some h, ih]

theorem ApplyRule.WellTyped.finds {kind : Kind} {rule : ApplyRule} (typed : rule.WellTyped kind)
    {members : List Row} (admitted : ∀ row ∈ members, kind.Admits row) :
    ∃ cells, rule.Finds members cells := by
  obtain ⟨field, found, hf, accepts⟩ := typed
  have present : ∀ row ∈ members, ∃ cell, row[rule.field]? = some cell := by
    intro row hr
    obtain ⟨cell, hc, _⟩ := (admitted row hr).cell field found
    exact ⟨cell, hf ▸ hc⟩
  obtain ⟨cells, each⟩ := exists_forall₂.mpr present
  refine ⟨cells, each, accepts.imp_right fun numeric cell mem => ?_, ?_⟩
  · obtain ⟨row, hr, hc⟩ := exists_of_mem_right each mem
    obtain ⟨other, ho, number⟩ := (admitted row hr).numeric found numeric
    obtain rfl := Option.some.inj (hc.symm.trans (hf ▸ ho))
    exact number
  · rw [ApplyRule.eval, filterMap_of_forall₂ each]

theorem Plan.WellTyped.noFallback {plan : Plan} (typed : plan.WellTyped) {rows : List Row}
    (admitted : ∀ row ∈ rows, plan.dataset.kind.Admits row) : plan.NoFallback rows := by
  have selected : ∀ row ∈ plan.filter.select rows, plan.dataset.kind.Admits row :=
    fun row hr => admitted row (Filter.mem_select.mp hr).1
  refine ⟨fun row hr => ?_, fun t _ members hm => ne_nil_of_mem_groupRows hm,
    fun t ht members hm rule hr => ?_, fun order ho key hk a ha b hb => ?_,
    fun row hr column hc => ?_, fun working run => sortRows?_perm run⟩
  · rcases typed.filter with all | filter
    · rw [all]
      exact .all
    · exact filter.finds (admitted row hr)
  · obtain ⟨cells, finds⟩ := ((typed.transformation t ht).rule rule hr).finds
      fun row hr => selected row (mem_of_mem_groupRows hm hr)
    exact ⟨cells, ne_nil_of_forall₂ finds.each (ne_nil_of_mem_groupRows hm), finds⟩
  · obtain ⟨type, each⟩ :=
      exists_cells selected typed.transformation ((typed.order order ho).2 key hk)
    obtain ⟨x, hx, admits_x⟩ := each a ha
    obtain ⟨y, hy, admits_y⟩ := each b hb
    exact ⟨x, y, hx, hy, FieldType.isNumber_eq admits_x admits_y⟩
  · obtain ⟨type, each⟩ := exists_cells selected typed.transformation (typed.column column hc)
    obtain ⟨cell, found, _⟩ := each row hr
    exact ⟨cell, found⟩

namespace Catalog

/-- The rows that a plan is run on are those of a dataset of its kind. -/
theorem Valid.exists_rows {catalog : Catalog} (valid : catalog.Valid) {document : Json}
    {plan : Plan} (h : Plan.ofDocument catalog.descriptors document = .ok plan) :
    ∃ rows, catalog.rows? plan.dataset.id = some rows ∧
      ∀ row ∈ rows, plan.dataset.kind.Admits row := by
  obtain ⟨parts, outlines, reads⟩ := Query.ofDocument_eq_ok_plan.mp h
  obtain ⟨_, first⟩ := outlines.target
  obtain ⟨dataset, mem, hd, rows⟩ := exists_dataset first
  rw [reads.dataset]
  refine ⟨dataset.rows, rows, ?_⟩
  rw [hd]
  exact (valid.dataset dataset mem).admits

/-- A plan against the datasets of a catalog runs without fallbacks on the rows of its own. -/
theorem exists_noFallback {catalog : Catalog} (reachable : catalog.Reachable) {document : Json}
    {plan : Plan} (h : Plan.ofDocument catalog.descriptors document = .ok plan) :
    ∃ rows, catalog.rows? plan.dataset.id = some rows ∧ plan.NoFallback rows := by
  obtain ⟨rows, found, admitted⟩ := reachable.valid.exists_rows h
  exact ⟨rows, found, (Query.wellTyped h).noFallback admitted⟩

/-- A query for the best average of each department, theory left aside. -/
def bestAverages : Json :=
  .object
    [("WHERE", .object
      [("NOT", .object [("IS", .object [("sections_title", .string "th*")])])]),
      ("OPTIONS", .object
        [("COLUMNS", .array [.string "sections_dept", .string "best"]),
          ("ORDER", .string "best")]),
      ("TRANSFORMATIONS", .object
        [("GROUP", .array [.string "sections_dept"]),
          ("APPLY", .array [.object [("best", .object [("MAX", .string "sections_avg")])]])])]

theorem ofDocument_bestAverages :
    Plan.ofDocument courses.descriptors bestAverages = .ok
      { dataset := Table.courses.descriptor
        filter := .not (.is "title" ⟨false, "th", true⟩)
        columns := [.field "dept", .apply "best"]
        order := some ⟨.up, [.apply "best"]⟩
        transformation := some ⟨["dept"], [⟨"best", .max, "avg"⟩]⟩ } := by
  cbv

theorem exists_noFallback_bestAverages :
    ∃ plan, Plan.ofDocument courses.descriptors bestAverages = .ok plan ∧
      ∃ rows, courses.rows? plan.dataset.id = some rows ∧ plan.NoFallback rows :=
  ⟨_, ofDocument_bestAverages, exists_noFallback reachable_courses ofDocument_bestAverages⟩

end Catalog

end CampusQuery
