import CampusQuery.Proofs.Execution.Isolation

/-!
# Queries between changes

A query looks at the catalog twice: its plan is made against the datasets of one moment, and the
rows are looked up at a later one. `answerAcross` is its answer if the catalog has been changed in
between.

If the dataset that the document names has gone by then, or has been replaced by one of its kind,
this is the answer of the earlier or of the later catalog (`answerAcross_eq_or`); so it is the
answer of a catalog that a history has passed through (`answerAcross_consistent`). A dataset of the
other kind is not noticed: the plan is run on rows that it has not been made for, and the answer is
none of any moment (`answerAcross_exchanged`).
-/

namespace CampusQuery

/-- A run looks at the id of its dataset only. -/
theorem Plan.run_dataset (plan : Plan) {dataset : Descriptor} (id : dataset.id = plan.dataset.id)
    (rows : List Row) : Plan.run { plan with dataset := dataset } rows = plan.run rows := by
  simp only [run, id]
  rfl

namespace Catalog

/-- The answer to a document whose plan is made against the earlier catalog and run on rows of the
later one. -/
def answerAcross (earlier later : Catalog) (document : Json) :
    Except QueryError (List ResultRow) :=
  (Source.mk earlier.descriptors later.rows?).answer document

/-- What the later catalog has under the id that a plan is for is of the kind that it is for. -/
def KeepsKind (earlier later : Catalog) (document : Json) : Prop :=
  ∀ plan dataset, Plan.ofDocument earlier.descriptors document = .ok plan →
    later.find? plan.dataset.id = some dataset → dataset.kind = plan.dataset.kind

theorem answerAcross_of_absent {earlier later : Catalog} {document : Json} {plan : Plan}
    (planned : Plan.ofDocument earlier.descriptors document = .ok plan)
    (absent : later.find? plan.dataset.id = none) :
    answerAcross earlier later document = later.answer document := by
  have missing : ∀ descriptor ∈ later.descriptors, descriptor.id ≠ plan.dataset.id := by
    intro descriptor mem
    obtain ⟨dataset, hd, rfl⟩ := List.mem_map.mp mem
    exact fun same => find?_eq_none_iff.mp absent (List.mem_map.mpr ⟨dataset, hd, same⟩)
  have refused : later.answer document = .error (.invalid (.unknownDataset plan.dataset.id)) :=
    Source.answer_of_defect ((Query.names_of_plan planned).ofDocument_of_absent missing)
  have gone : later.rows? plan.dataset.id = none := by rw [rows?, absent, Option.map_none]
  have across : answerAcross earlier later document =
      .error (.invalid (.unknownDataset plan.dataset.id)) :=
    Source.answer_of_absent ⟨earlier.descriptors, later.rows?⟩ planned gone
  rw [across, refused]

theorem answerAcross_of_sameKind {earlier later : Catalog} {document : Json} {plan : Plan}
    (planned : Plan.ofDocument earlier.descriptors document = .ok plan) {dataset : Dataset}
    (found : later.find? plan.dataset.id = some dataset)
    (kind : dataset.kind = plan.dataset.kind) :
    answerAcross earlier later document = later.answer document := by
  have id : dataset.descriptor.id = plan.dataset.id := id_of_find? found
  have first : later.descriptors.find? (·.id = plan.dataset.id) = some dataset.descriptor := by
    rw [find?_descriptors, found]
    rfl
  have rows : later.rows? plan.dataset.id = some dataset.rows := by
    rw [rows?, found, Option.map_some]
  have across : answerAcross earlier later document = plan.run dataset.rows :=
    Source.answer_of_rows ⟨earlier.descriptors, later.rows?⟩ planned rows
  have replanned := Query.ofDocument_of_sameKind planned first kind
  have anew : later.answer document =
      Plan.run { plan with dataset := dataset.descriptor } dataset.rows :=
    later.toSource.answer_of_rows replanned (by rw [← rows, ← id]; rfl)
  rw [across, anew, plan.run_dataset id]

/-- Unless the kind of the dataset has changed, the answer is that of one of the two catalogs. -/
theorem answerAcross_eq_or {earlier later : Catalog} {document : Json}
    (kept : KeepsKind earlier later document) :
    answerAcross earlier later document = earlier.answer document ∨
      answerAcross earlier later document = later.answer document := by
  cases planned : Plan.ofDocument earlier.descriptors document with
  | error defect =>
    have refused : earlier.answer document = .error (.invalid defect) :=
      Source.answer_of_defect planned
    have across : answerAcross earlier later document = .error (.invalid defect) :=
      @Source.answer_of_defect ⟨earlier.descriptors, later.rows?⟩ _ _ planned
    exact .inl (across.trans refused.symm)
  | ok plan =>
    cases found : later.find? plan.dataset.id with
    | none => exact .inr (answerAcross_of_absent planned found)
    | some dataset =>
      exact .inr (answerAcross_of_sameKind planned found (kept plan dataset planned found))

/-- If the catalog is changed between the two looks, but not the kind of the dataset, the answer is
that of a catalog on the way. -/
theorem answerAcross_consistent (catalog : Catalog) (history : List Operation) (document : Json)
    (kept : catalog.KeepsKind (history.foldl after catalog) document) :
    ∃ done, done <+: history ∧
      catalog.answerAcross (history.foldl after catalog) document =
        (done.foldl after catalog).answer document := by
  rcases answerAcross_eq_or kept with first | last
  · exact ⟨[], List.nil_prefix, first⟩
  · exact ⟨history, List.prefix_rfl, last⟩

end Catalog

/-! ## The courses replaced -/

def Row.room (name : String) (seats : Int64) : Row :=
  let cells : List (String × Cell) :=
    [("fullname", .text "hall"), ("shortname", .text "H"), ("number", .text "1"),
      ("name", .text name), ("address", .text "main mall"), ("type", .text "tiered"),
      ("furniture", .text "fixed"), ("href", .text "h"), ("lat", .integer 49),
      ("lon", .integer (-123)), ("seats", .integer seats)]
  .ofList cells

/-- Rooms under the id that the courses have. -/
def Table.rooms : Table where
  id := "sections"
  kind := .rooms
  rows := [.room "H1" 60]

theorem Table.valid_rooms : rooms.Valid where
  id := by cbv
  rows_ne_nil := List.cons_ne_nil _ _
  admits := Catalog.invalidRow?_eq_none.mp (by cbv)

/-- Other courses under the id that the courses have. -/
def Table.renewed : Table := { archive with id := "sections" }

theorem Table.valid_renewed : renewed.Valid where
  id := valid_courses.id
  rows_ne_nil := valid_archive.rows_ne_nil
  admits := valid_archive.admits

namespace Catalog

/-- The courses give way to another dataset. -/
def exchange (table : Table) : List Operation := [.remove "sections", .add table]

theorem after_remove_courses : courses.after (.remove "sections") = empty := by
  have ok : courses.remove "sections" = (empty, .ok "sections") :=
    remove_eq_ok.mpr ⟨Table.valid_courses.id, List.mem_singleton_self _, by cbv, rfl⟩
  rw [after, ok]

theorem after_add_empty {table : Table} (valid : table.Valid) :
    empty.after (.add table) = ⟨[table.dataset]⟩ :=
  add_of_valid valid List.not_mem_nil

theorem foldl_exchange {table : Table} (valid : table.Valid) :
    (exchange table).foldl after courses = ⟨[table.dataset]⟩ := by
  rw [exchange, List.foldl_cons, after_remove_courses, List.foldl_cons, after_add_empty valid,
    List.foldl_nil]

theorem keepsKind_renewed : courses.KeepsKind ⟨[Table.renewed.dataset]⟩ byAverage := by
  intro plan dataset planned found
  obtain rfl : dataset = Table.renewed.dataset := List.mem_singleton.mp (mem_of_find? found)
  have kind : (Plan.ofDocument courses.descriptors byAverage).map (·.dataset.kind) =
      .ok .sections := by cbv
  rw [planned] at kind
  exact (Except.ok.inj kind).symm

/-- The courses give way to other courses. -/
theorem answerAcross_renewed :
    courses.KeepsKind ((exchange .renewed).foldl after courses) byAverage ∧
      ∃ done, done <+: exchange .renewed ∧
        courses.answerAcross ((exchange .renewed).foldl after courses) byAverage =
          (done.foldl after courses).answer byAverage := by
  have kept : courses.KeepsKind ((exchange .renewed).foldl after courses) byAverage := by
    rw [foldl_exchange Table.valid_renewed]
    exact keepsKind_renewed
  exact ⟨kept, answerAcross_consistent courses (exchange .renewed) byAverage kept⟩

/-- The courses give way to rooms: the plan for courses is run on a room, which has none of the
columns, and no catalog on the way gives that answer. -/
theorem answerAcross_exchanged :
    courses.Reachable ∧ ∀ done, done <+: exchange .rooms →
      courses.answerAcross ((exchange .rooms).foldl after courses) byAverage ≠
        (done.foldl after courses).answer byAverage := by
  refine ⟨reachable_courses, fun done before => ?_⟩
  have across : courses.answerAcross ⟨[Table.rooms.dataset]⟩ byAverage = .ok [.empty] := by cbv
  rw [foldl_exchange Table.valid_rooms, across]
  rcases List.prefix_cons_iff.mp before with rfl | ⟨rest, rfl, further⟩
  · rw [List.foldl_nil, answer_byAverage]
    intro same
    cases same
  rw [List.foldl_cons, after_remove_courses]
  rcases List.prefix_cons_iff.mp further with rfl | ⟨rest, rfl, last⟩
  · have gone : empty.answer byAverage = .error (.invalid (.unknownDataset "sections")) := by cbv
    rw [List.foldl_nil, gone]
    intro same
    cases same
  · obtain rfl := List.prefix_nil.mp last
    have added := after_add_empty Table.valid_rooms
    have unknown : (⟨[Table.rooms.dataset]⟩ : Catalog).answer byAverage =
        .error (.invalid (.unknownKey "sections_dept" .columns)) := by cbv
    rw [List.foldl_cons, List.foldl_nil, added, unknown]
    intro same
    cases same

end Catalog

end CampusQuery
