import CampusQuery.Proofs.Catalog.History
import CampusQuery.Proofs.Execution.Projection
import CampusQuery.Proofs.Query.Typing

/-!
# What holds between the parts of a plan

The columns and order keys of a plan are its references. `Plan.WellFormed` says what they, the
transformation, the filter and the dataset of a plan have to do with one another, and `wellFormed`
that it is so for every plan that is made from a document. Most of it is the typing of the plan
(`Plan.WellTyped.hasField`, `Plan.WellTyped.mem_applyKeys_of_mem`, `Plan.WellTyped.mem_group`); that
the order goes by nothing but columns and apply keys is read off the document (`Parts.Reads.shown`).
-/

namespace CampusQuery

namespace Plan

/-- The columns that a plan refers to, to show them or to order by them. -/
def references (plan : Plan) : List Column :=
  plan.columns ++ (plan.order.map Order.keys).getD []

/-- The apply keys of a plan, which has none without a transformation. -/
def applyKeys (plan : Plan) : List String :=
  (plan.transformation.map fun t => t.rules.map ApplyRule.key).getD []

/-- The first dataset with its id is queried; the references, the transformation and the filter of
the plan go with the kind of that dataset and with one another. -/
structure WellFormed (datasets : List Descriptor) (plan : Plan) : Prop where
  dataset : datasets.find? (·.id = plan.dataset.id) = some plan.dataset
  columns_ne_nil : plan.columns ≠ []
  field : ∀ name, .field name ∈ plan.references → plan.dataset.kind.HasField name
  apply : ∀ key, .apply key ∈ plan.references → key ∈ plan.applyKeys
  group : ∀ t ∈ plan.transformation, t.group ≠ [] ∧
    (∀ name ∈ t.group, plan.dataset.kind.HasField name) ∧
    ∀ name, .field name ∈ plan.references → name ∈ t.group
  order : ∀ order ∈ plan.order, order.keys ≠ [] ∧ ∀ column ∈ order.keys,
    column ∈ plan.columns ∨ ∃ key ∈ plan.applyKeys, column = .apply key
  keys_nodup : plan.applyKeys.Nodup
  keys_proper : ∀ key ∈ plan.applyKeys, key ≠ "" ∧ '_' ∉ key.toList
  rule : ∀ t ∈ plan.transformation, ∀ rule ∈ t.rules, rule.WellTyped plan.dataset.kind
  filter : plan.filter = .all ∨ plan.filter.WellTyped plan.dataset.kind

theorem mem_references {plan : Plan} {column : Column} :
    column ∈ plan.references ↔
      column ∈ plan.columns ∨ ∃ order ∈ plan.order, column ∈ order.keys := by
  cases h : plan.order <;> simp [references, h]

theorem mem_applyKeys {plan : Plan} {key : String} :
    key ∈ plan.applyKeys ↔ ∃ t ∈ plan.transformation, ∃ rule ∈ t.rules, rule.key = key := by
  cases h : plan.transformation <;> simp [applyKeys, h]

namespace WellTyped

variable {plan : Plan} (typed : plan.WellTyped)

include typed

theorem inScope {column : Column} (mem : column ∈ plan.references) :
    column.InScope plan.dataset.kind plan.transformation := by
  rcases mem_references.mp mem with shown | ⟨order, ho, key⟩
  · exact typed.column column shown
  · exact (typed.order order ho).2 column key

theorem hasField {name : String} (mem : .field name ∈ plan.references) :
    plan.dataset.kind.HasField name := by
  have scope := typed.inScope mem
  cases h : plan.transformation with
  | none =>
    rw [h] at scope
    cases scope with
    | field found => exact found
  | some t =>
    rw [h] at scope
    cases scope with
    | group grouped => exact (typed.transformation t h).group name grouped

theorem mem_applyKeys_of_mem {key : String} (mem : .apply key ∈ plan.references) :
    key ∈ plan.applyKeys := by
  have scope := typed.inScope mem
  cases h : plan.transformation with
  | none =>
    rw [h] at scope
    nomatch scope
  | some t =>
    rw [h] at scope
    cases scope with
    | apply rule => exact mem_applyKeys.mpr ⟨t, h, _, rule, rfl⟩

theorem mem_group {t : Transformation} (ht : t ∈ plan.transformation) {name : String}
    (mem : .field name ∈ plan.references) : name ∈ t.group := by
  have scope := typed.inScope mem
  rw [Option.mem_def.mp ht] at scope
  cases scope with
  | group grouped => exact grouped

theorem keys_nodup : plan.applyKeys.Nodup := by
  cases h : plan.transformation with
  | none => simp [applyKeys, h]
  | some t => simpa [applyKeys, h] using (typed.transformation t h).keys_nodup

theorem keys_proper {key : String} (mem : key ∈ plan.applyKeys) :
    key ≠ "" ∧ '_' ∉ key.toList := by
  obtain ⟨t, ht, rule, hr, rfl⟩ := mem_applyKeys.mp mem
  exact (typed.transformation t ht).keys_proper rule hr

end WellTyped

end Plan

namespace Query

/-- What is ordered by is shown, or it is an apply key. -/
theorem Parts.Reads.shown {parts : Parts} {plan : Plan} (reads : parts.Reads plan)
    {datasets : List Descriptor} {document : Json} (outlines : parts.Outlines datasets document)
    {order : Order} (ho : order ∈ plan.order) {column : Column} (mem : column ∈ order.keys) :
    column ∈ plan.columns ∨ ∃ key ∈ plan.applyKeys, column = .apply key := by
  obtain ⟨_, each⟩ := outlines.options.order.isOrderKey (Option.mem_def.mp ho ▸ reads.order)
  obtain ⟨reference, is, resolves⟩ := each column mem
  rcases is with shown | known
  · obtain ⟨other, ho, same⟩ := exists_of_mem_right reads.columns.flip shown
    exact .inl (Resolves.unique same resolves ▸ ho)
  · obtain rfl := Resolves.unique resolves (.apply known)
    have referred := Plan.mem_references.mpr (.inr ⟨order, ho, mem⟩)
    exact .inr ⟨reference, (reads.wellTyped outlines).mem_applyKeys_of_mem referred, rfl⟩

/-- The plan of a document is well formed. -/
theorem wellFormed {datasets : List Descriptor} {document : Json} {plan : Plan}
    (h : Plan.ofDocument datasets document = .ok plan) : plan.WellFormed datasets := by
  have typed := wellTyped h
  obtain ⟨parts, outlines, reads⟩ := ofDocument_eq_ok_plan.mp h
  have found := outlines.target.2
  rw [← reads.dataset] at found
  exact {
    dataset := found
    columns_ne_nil := typed.columns_ne_nil
    field := fun name mem => typed.hasField mem
    apply := fun key mem => typed.mem_applyKeys_of_mem mem
    group := fun t ht => ⟨(typed.transformation t ht).group_ne_nil,
      (typed.transformation t ht).group, fun name mem => typed.mem_group ht mem⟩
    order := fun order ho => ⟨(typed.order order ho).1, fun column mem =>
      reads.shown outlines ho mem⟩
    keys_nodup := typed.keys_nodup
    keys_proper := fun key mem => typed.keys_proper mem
    rule := fun t ht => (typed.transformation t ht).rule
    filter := typed.filter }

/-- A query of departments, whose conditions are nested and whose order goes by a field that is
shown and by an apply key that is not. -/
def largeDepartments : Json :=
  .object
    [("WHERE", .object
      [("AND", .array
        [.object [("OR", .array
          [.object [("GT", .object [("sections_fail", .number (.float .zero))])],
            .object [("IS", .object [("sections_title", .string "*theory")])]])],
          .object [("NOT",
            .object [("LT", .object [("sections_audit", .number (.float .zero))])])]])]),
      ("OPTIONS", .object
        [("COLUMNS", .array [.string "sections_dept", .string "mean", .string "sections_dept"]),
          ("ORDER", .object
            [("dir", .string "DOWN"),
              ("keys", .array [.string "titles", .string "sections_dept"])])]),
      ("TRANSFORMATIONS", .object
        [("GROUP", .array [.string "sections_dept", .string "sections_year"]),
          ("APPLY", .array
            [.object [("titles", .object [("COUNT", .string "sections_title")])],
              .object [("mean", .object [("AVG", .string "sections_avg")])]])])]

theorem wellFormed_largeDepartments :
    ∃ plan, Plan.ofDocument Catalog.courses.descriptors largeDepartments = .ok plan ∧
      plan.WellFormed Catalog.courses.descriptors := by
  have read : ∃ plan, Plan.ofDocument Catalog.courses.descriptors largeDepartments = .ok plan :=
    ⟨_, by cbv⟩
  obtain ⟨plan, read⟩ := read
  exact ⟨plan, read, wellFormed read⟩

end Query

end CampusQuery
