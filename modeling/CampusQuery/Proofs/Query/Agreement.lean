import CampusQuery.Proofs.Query.WellFormed

/-!
# Checking and reading agree

A query is checked before it is read, and its options and its transformation are walked through in
both passes. Whatever passes the checks is read: the conditions, which are not checked before, are
all that can still be wrong with a query (`toPlan_eq_map`). `toPlan_agrees` says so, and that a plan
then has of everything what was found when the query was checked (`Outline.Mirrors`).
-/

namespace CampusQuery.Query

/-- The plan has the dataset and the apply keys that were found when the document was checked, the
filter of its conditions, a transformation if it has one, a group field for each item of `GROUP` and
a column for each item of `COLUMNS`. -/
structure Outline.Mirrors (outline : Outline) (document : Json) (plan : Plan) : Prop where
  dataset : plan.dataset = outline.dataset
  conditions : document.get? "WHERE" = some (.object outline.conditions)
  filter : readConditions outline.dataset outline.conditions = .ok plan.filter
  transformation : plan.transformation.isSome = true ↔
    ∃ members, document.get? "TRANSFORMATIONS" = some (.object members)
  keys : plan.applyKeys = outline.keys.toList
  group : ∀ t ∈ plan.transformation, ∃ references : List String,
    (document.get? "TRANSFORMATIONS").bind (Json.get? "GROUP") =
        some (.array (references.map .string)) ∧
      List.Forall₂ (RefersTo outline.dataset) references t.group
  columns : ∃ references : List String,
    (document.get? "OPTIONS").bind (Json.get? "COLUMNS") =
        some (.array (references.map .string)) ∧
      List.Forall₂ (Resolves outline.dataset outline.keys.toList) references plan.columns

section Grouping

variable {dataset : Descriptor} {found : Option Json} {grouping : Option (List (String × Json))}
  {t : Option Transformation}

theorem IsOptionalObject.isSome_iff (is : IsOptionalObject found grouping)
    (reads : Option.Rel (ReadsTransformation dataset) grouping t) :
    t.isSome = true ↔ ∃ members, found = some (.object members) := by
  cases is <;> cases reads <;> simp

theorem IsGrouping.keys_eq {group : Option (List String)} {keys : List String}
    (is : IsGrouping dataset grouping group keys)
    (reads : Option.Rel (ReadsTransformation dataset) grouping t) :
    (t.map fun t => t.rules.map ApplyRule.key).getD [] = keys := by
  cases reads with
  | none =>
    cases is
    rfl
  | some read =>
    cases is with
    | some is => exact (is.rules_wellTyped read).1

theorem IsOptionalObject.exists_group (is : IsOptionalObject found grouping)
    (reads : Option.Rel (ReadsTransformation dataset) grouping t) {transformation : Transformation}
    (ht : transformation ∈ t) :
    ∃ references : List String,
      found.bind (Json.get? "GROUP") = some (.array (references.map .string)) ∧
        List.Forall₂ (RefersTo dataset) references transformation.group := by
  cases reads with
  | none => nomatch ht
  | some read =>
    cases is with
    | object members =>
      obtain rfl := Option.mem_some.mp ht
      exact read.group

end Grouping

section Outlines

variable {datasets : List Descriptor} {document : Json} {outline : Outline}
  {columns : List String} {group : Option (List String)}
  (h : (outline.parts columns group).Outlines datasets document)

include h

theorem exists_readOptions :
    ∃ options, readOptions outline.dataset outline.keys outline.options = .ok options := by
  have hid : '_' ∉ outline.dataset.id.toList := h.target.not_mem
  have listed : Json.fieldOf? "COLUMNS" outline.options = some (.array (columns.map .string)) :=
    h.options.columns_eq
  obtain ⟨shown, each⟩ :=
    exists_forall₂.mpr fun reference mem => (h.options.columns_ok reference mem).resolves
  obtain ⟨order, ordered⟩ := h.options.order.exists_reads h.options.columns_ok
  refine ⟨(shown, order), ?_⟩
  simp only [readOptions, bind_eq_ok, pure_eq_ok]
  exact ⟨shown, (readColumns_eq_ok hid listed).mpr each, order, (readOrder_eq_ok hid).mpr ordered,
    rfl⟩

theorem exists_readTransformation :
    ∃ t, outline.grouping.mapM (readTransformation outline.dataset) = .ok t := by
  have hid : '_' ∉ outline.dataset.id.toList := h.target.not_mem
  obtain ⟨t, read⟩ := h.grouping.exists_reads
  refine ⟨t, ?_⟩
  simp only [optionMapM_eq_ok, readTransformation_eq_ok hid]
  exact read

/-- Only the conditions are left to make a difference. -/
theorem toPlan_eq_map :
    ∃ (options : List Column × Option Order) (t : Option Transformation),
      readOptions outline.dataset outline.keys outline.options = .ok options ∧
      outline.grouping.mapM (readTransformation outline.dataset) = .ok t ∧
      outline.toPlan = (readConditions outline.dataset outline.conditions).map fun filter =>
        ⟨outline.dataset, filter, options.1, options.2, t⟩ := by
  obtain ⟨options, ho⟩ := exists_readOptions h
  obtain ⟨t, ht⟩ := exists_readTransformation h
  refine ⟨options, t, ho, ht, ?_⟩
  rw [Outline.toPlan, ho, ht]
  cases readConditions outline.dataset outline.conditions <;> rfl

theorem mirrors {plan : Plan} (reads : (outline.parts columns group).Reads plan) :
    outline.Mirrors document plan := by
  have hid : '_' ∉ outline.dataset.id.toList := h.target.not_mem
  obtain ⟨members, rfl, -, hw, ho, grouping⟩ := h.sections
  exact {
    dataset := reads.dataset
    conditions := hw
    filter := (readConditions_eq_ok hid).mpr reads.filter
    transformation := grouping.isSome_iff reads.transformation
    keys := h.grouping.keys_eq reads.transformation
    group := fun _ ht => grouping.exists_group reads.transformation ht
    columns := ⟨columns, by rw [Json.get?, ho]; exact h.options.columns_eq, reads.columns⟩ }

end Outlines

/-- What has passed the checks is read but for its conditions: it is without a plan exactly if they
have a defect, and for that defect. Its plan mirrors what the checks have found. -/
theorem toPlan_agrees {datasets : List Descriptor} {document : Json} {outline : Outline}
    (checked : Outline.ofDocument datasets document = .ok outline) :
    (∃ options transformation,
      readOptions outline.dataset outline.keys outline.options = .ok options ∧
      outline.grouping.mapM (readTransformation outline.dataset) = .ok transformation) ∧
    (∀ defect, outline.toPlan = .error defect ↔
      readConditions outline.dataset outline.conditions = .error defect) ∧
    ∀ plan, outline.toPlan = .ok plan → outline.Mirrors document plan := by
  obtain ⟨columns, group, h⟩ := ofDocument_eq_ok.mp checked
  obtain ⟨options, t, ho, ht, plans⟩ := toPlan_eq_map h
  refine ⟨⟨options, t, ho, ht⟩, fun defect => ?_, fun plan made => ?_⟩
  · rw [plans]
    cases readConditions outline.dataset outline.conditions <;> simp [Except.map]
  · exact mirrors h ((toPlan_eq_ok h).mp made)

theorem toPlan_agrees_largeDepartments :
    ∃ outline plan, Outline.ofDocument Catalog.courses.descriptors largeDepartments = .ok outline ∧
      outline.toPlan = .ok plan ∧ outline.Mirrors largeDepartments plan ∧
      plan.applyKeys = ["titles", "mean"] := by
  have checked : ∃ outline,
      Outline.ofDocument Catalog.courses.descriptors largeDepartments = .ok outline ∧
        (∃ plan, outline.toPlan = .ok plan) ∧ outline.keys.toList = ["titles", "mean"] :=
    ⟨_, by cbv, ⟨_, by cbv⟩, by cbv⟩
  obtain ⟨outline, checked, ⟨plan, made⟩, keys⟩ := checked
  have mirrors := (toPlan_agrees checked).2.2 plan made
  exact ⟨outline, plan, checked, made, mirrors, mirrors.keys.trans keys⟩

end CampusQuery.Query
