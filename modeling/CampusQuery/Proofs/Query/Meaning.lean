import CampusQuery.Proofs.Query.Reading

/-!
# What conditions mean

`Holds` says what a document of conditions means for a row, without a filter: an operator is the
logical connective that it names, a comparison is one of exact values, and a text is matched by a
glob. `accepts_iff_holds` is that the filter of a plan accepts the rows for which the conditions of
its document hold. A row is arbitrary here: it may lack fields and hold cells of either type.
-/

namespace CampusQuery

namespace Binary64

/-- Strictly less by value; a NaN is not less than anything. -/
def Less (x y : Binary64) : Prop :=
  x.isNaN = false ∧ y.isNaN = false ∧ x.units < y.units

/-- Equal by value; a NaN is not equal to anything. -/
def Same (x y : Binary64) : Prop :=
  x.isNaN = false ∧ y.isNaN = false ∧ x.units = y.units

theorem compare?_eq_some_iff {x y : Binary64} {ordering : Ordering} :
    x.compare? y = some ordering ↔
      x.isNaN = false ∧ y.isNaN = false ∧ compare x.units y.units = ordering := by
  unfold compare?
  cases x.isNaN <;> cases y.isNaN <;> simp

end Binary64

theorem Comparison.holds_greater {x y : Binary64} : greater.holds x y = true ↔ y.Less x := by
  rw [holds, decide_eq_true_eq, ordering, Binary64.compare?_eq_some_iff, Int.compare_eq_gt]
  exact ⟨fun ⟨hx, hy, h⟩ => ⟨hy, hx, h⟩, fun ⟨hy, hx, h⟩ => ⟨hx, hy, h⟩⟩

theorem Comparison.holds_less {x y : Binary64} : less.holds x y = true ↔ x.Less y := by
  rw [holds, decide_eq_true_eq, ordering, Binary64.compare?_eq_some_iff, Int.compare_eq_lt]
  rfl

theorem Comparison.holds_equal {x y : Binary64} : equal.holds x y = true ↔ x.Same y := by
  rw [holds, decide_eq_true_eq, ordering, Binary64.compare?_eq_some_iff, Int.compare_eq_eq]
  rfl

namespace Query

/-- The row has a number in the field that the reference names, with the given binary64 value. -/
def NumberAt (id : String) (row : Row) (reference : String) (x : Binary64) : Prop :=
  ∃ name cell, reference = id ++ "_" ++ name ∧ row[name]? = some cell ∧ cell.toBinary64? = some x

/-- The row has the text in the field that the reference names. -/
def TextAt (id : String) (row : Row) (reference s : String) : Prop :=
  ∃ name, reference = id ++ "_" ++ name ∧ row[name]? = some (.text s)

mutual

/-- Whether conditions on the dataset with the given id hold of a row. -/
def Holds (id : String) (row : Row) : Json → Prop
  | .object [] => True
  | .object [("AND", .array items)] => HoldEvery id row items
  | .object [("OR", .array items)] => HoldSome id row items
  | .object [("NOT", item)] => ¬Holds id row item
  | .object [("GT", .object [(reference, .number n)])] =>
    ∃ x, NumberAt id row reference x ∧ n.toBinary64.Less x
  | .object [("LT", .object [(reference, .number n)])] =>
    ∃ x, NumberAt id row reference x ∧ x.Less n.toBinary64
  | .object [("EQ", .object [(reference, .number n)])] =>
    ∃ x, NumberAt id row reference x ∧ x.Same n.toBinary64
  | .object [("IS", .object [(reference, .string raw)])] =>
    ∃ s, TextAt id row reference s ∧ Glob raw.toList s.toList
  | _ => False

def HoldEvery (id : String) (row : Row) : List Json → Prop
  | [] => True
  | item :: items => Holds id row item ∧ HoldEvery id row items

def HoldSome (id : String) (row : Row) : List Json → Prop
  | [] => False
  | item :: items => Holds id row item ∨ HoldSome id row items

end

theorem numberAt_iff {dataset : Descriptor} {row : Row} {reference : String} {field : Field}
    (found : Refers dataset reference field) {x : Binary64} :
    NumberAt dataset.id row reference x ↔ row[field.name]?.bind Cell.toBinary64? = some x := by
  rw [Option.bind_eq_some_iff]
  refine ⟨fun ⟨name, cell, hr, hc, hx⟩ => ⟨cell, ?_, hx⟩,
    fun ⟨cell, hc, hx⟩ => ⟨field.name, cell, found.2, hc, hx⟩⟩
  rwa [← qualified_inj.mp (hr.symm.trans found.2)]

theorem textAt_iff {dataset : Descriptor} {row : Row} {reference : String} {field : Field}
    (found : Refers dataset reference field) {s : String} :
    TextAt dataset.id row reference s ↔ row[field.name]?.bind Cell.text? = some s := by
  rw [Option.bind_eq_some_iff]
  refine ⟨fun ⟨name, hr, hc⟩ => ⟨.text s, ?_, rfl⟩, fun ⟨cell, hc, hs⟩ => ⟨field.name, found.2, ?_⟩⟩
  · rwa [← qualified_inj.mp (hr.symm.trans found.2)]
  · cases cell with
    | text => rw [hc, Option.some.inj hs]
    | _ => cases hs

/-! ## Filters mean what their documents do -/

section

variable {id : String} {row : Row} {items : List Json} {filters : List Filter}
  {R : Json → Filter → Prop}
  (each : List.Forall₂ (fun item filter => R item filter ∧
    (Filter.accepts row filter = true ↔ Holds id row item)) items filters)

include each

theorem acceptsEvery_iff : Filter.acceptsEvery row filters = true ↔ HoldEvery id row items := by
  induction each with
  | nil => simp [Filter.acceptsEvery, HoldEvery]
  | cons h _ ih => rw [Filter.acceptsEvery, Bool.and_eq_true, h.2, ih, HoldEvery]

theorem acceptsSome_iff : Filter.acceptsSome row filters = true ↔ HoldSome id row items := by
  induction each with
  | nil => simp [Filter.acceptsSome, HoldSome]
  | cons h _ ih => rw [Filter.acceptsSome, Bool.or_eq_true, h.2, ih, HoldSome]

end

/-- A filter accepts the rows for which the condition that it stands for holds. -/
theorem ReadsFilter.accepts_iff {dataset : Descriptor} {document : Json} {filter : Filter}
    (h : ReadsFilter dataset document filter) (row : Row) :
    filter.accepts row = true ↔ Holds dataset.id row document := by
  refine ReadsFilter.induction
    (motive := fun document filter => filter.accepts row = true ↔ Holds dataset.id row document)
    ?and ?or ?not ?compare ?is h
  case and =>
    intro items filters _ each
    simp only [Filter.accepts, Holds]
    exact acceptsEvery_iff each
  case or =>
    intro items filters _ each
    simp only [Filter.accepts, Holds]
    exact acceptsSome_iff each
  case not =>
    intro item filter _ ih
    simp only [Filter.accepts, Holds, ← ih, Bool.not_eq_true', Bool.not_eq_true]
  case compare =>
    intro comparison reference field n found numeric
    rw [Filter.accepts, Option.any_eq_true]
    cases comparison <;>
      simp only [Comparison.keyword, Holds, numberAt_iff found, Comparison.holds_greater,
        Comparison.holds_less, Comparison.holds_equal]
  case is =>
    intro reference raw field pattern found text written
    rw [Filter.accepts, Option.any_eq_true]
    simp only [Holds, textAt_iff found, Pattern.admits_iff_glob written]

theorem ReadsConditions.accepts_iff {dataset : Descriptor} {members : List (String × Json)}
    {filter : Filter} (h : ReadsConditions dataset members filter) (row : Row) :
    filter.accepts row = true ↔ Holds dataset.id row (.object members) := by
  cases h with
  | all => simp [Filter.accepts, Holds]
  | filter h => exact h.accepts_iff row

/-- The filter of a plan accepts the rows for which the conditions of the query hold. -/
theorem accepts_iff_holds {datasets : List Descriptor} {document : Json} {plan : Plan}
    (h : Plan.ofDocument datasets document = .ok plan) :
    ∃ conditions, document.get? "WHERE" = some conditions ∧
      ∀ row, plan.filter.accepts row = true ↔ Holds plan.dataset.id row conditions := by
  obtain ⟨parts, outlines, reads⟩ := ofDocument_eq_ok_plan.mp h
  obtain ⟨members, rfl, _, where_eq, _⟩ := outlines.sections
  refine ⟨.object parts.conditions, where_eq, fun row => ?_⟩
  rw [reads.dataset]
  exact reads.filter.accepts_iff row

/-- A query for the sections with an average above `n` in the departments that do not begin with
`cp`. -/
def sectionsAbove (n : Json.Number) : Json :=
  .object
    [("WHERE", .object
      [("AND", .array
        [.object [("GT", .object [("sections_avg", .number n)])],
          .object [("NOT", .object [("IS", .object [("sections_dept", .string "cp*")])])]])]),
      ("OPTIONS", .object [("COLUMNS", .array [.string "sections_dept"])])]

theorem ofDocument_sectionsAbove (n : Json.Number) :
    Plan.ofDocument [⟨"sections", .sections, 3⟩] (sectionsAbove n) = .ok
      { dataset := ⟨"sections", .sections, 3⟩
        filter := .and
          [.compare .greater "avg" n.toBinary64, .not (.is "dept" ⟨false, "cp", true⟩)]
        columns := [.field "dept"]
        order := none
        transformation := none } := by
  cbv

theorem accepts_iff_holds_sectionsAbove :
    ∃ plan, Plan.ofDocument [⟨"sections", .sections, 3⟩] (sectionsAbove (.integer 90)) = .ok plan ∧
      ∃ conditions, (sectionsAbove (.integer 90)).get? "WHERE" = some conditions ∧
        ∀ row, plan.filter.accepts row = true ↔ Holds plan.dataset.id row conditions :=
  ⟨_, ofDocument_sectionsAbove (.integer 90),
    accepts_iff_holds (ofDocument_sectionsAbove (.integer 90))⟩

end Query

end CampusQuery
