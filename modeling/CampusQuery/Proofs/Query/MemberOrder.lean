import CampusQuery.Proofs.Execution.Answers
import CampusQuery.Proofs.Json.MemberOrder

/-!
# The order of members in a query

What a query says does not depend on the order in which the members of its objects stand: documents
that are the same but for that order have the same plan, or neither has one
(`ofDocument_reordered`). The grammar and the plan of a query are said in terms of what names stand
for, and of objects with one member; so both are kept part by part, the conditions by induction on
the filter that they stand for (`ReadsFilter.reorder`).
-/

namespace CampusQuery.Query

open Json (Reordered)

variable {dataset : Descriptor}

/-- The members of `TRANSFORMATIONS` in another order, or none in both places. -/
abbrev SameGrouping (grouping other : Option (List (String × Json))) : Prop :=
  Option.Rel (fun members others => Reordered (.object members) (.object others)) grouping other

theorem ReadsFilter.reorder {document other : Json} {filter : Filter}
    (h : ReadsFilter dataset document filter) (same : document.Reordered other) :
    ReadsFilter dataset other filter := by
  refine ReadsFilter.induction
    (motive := fun document filter => ∀ other, document.Reordered other →
      ReadsFilter dataset other filter) ?and ?or ?not ?compare ?is h other same
  case and =>
    intro items filters nonempty each other same
    obtain ⟨body, rfl, bodies⟩ := same.exists_singleton
    obtain ⟨others, rfl, beside⟩ := bodies.exists_array
    exact .and (ne_nil_of_forall₂ beside nonempty)
      (forall₂_transfer each beside fun _ _ _ h same => h.2 _ same)
  case or =>
    intro items filters nonempty each other same
    obtain ⟨body, rfl, bodies⟩ := same.exists_singleton
    obtain ⟨others, rfl, beside⟩ := bodies.exists_array
    exact .or (ne_nil_of_forall₂ beside nonempty)
      (forall₂_transfer each beside fun _ _ _ h same => h.2 _ same)
  case not =>
    intro item filter _ ih other same
    obtain ⟨body, rfl, bodies⟩ := same.exists_singleton
    exact .not (ih body bodies)
  case compare =>
    intro comparison reference field n found numeric other same
    obtain ⟨body, rfl, bodies⟩ := same.exists_singleton
    obtain ⟨literal, rfl, literals⟩ := bodies.exists_singleton
    rw [literals.eq_number]
    exact .compare comparison n found numeric
  case is =>
    intro reference raw field pattern found text written other same
    obtain ⟨body, rfl, bodies⟩ := same.exists_singleton
    obtain ⟨literal, rfl, literals⟩ := bodies.exists_singleton
    rw [literals.eq_string]
    exact .is found text written

/-- The object that binds a key to an aggregate of a reference. -/
theorem eq_ruleObject {key word reference : String} {other : Json}
    (same : Reordered (.object [(key, .object [(word, .string reference)])]) other) :
    other = .object [(key, .object [(word, .string reference)])] := by
  obtain ⟨body, rfl, bodies⟩ := same.exists_singleton
  obtain ⟨value, rfl, values⟩ := bodies.exists_singleton
  rw [values.eq_string]

theorem IsRule.reorder {item other : Json} {key : String} (h : IsRule dataset item key)
    (same : item.Reordered other) : IsRule dataset other key := by
  obtain ⟨aggregate, reference, field, rfl, found, typed⟩ := h
  exact ⟨aggregate, reference, field, eq_ruleObject same, found, typed⟩

theorem ReadsRule.reorder {item other : Json} {rule : ApplyRule} (h : ReadsRule dataset item rule)
    (same : item.Reordered other) : ReadsRule dataset other rule := by
  obtain ⟨reference, rfl, refers⟩ := h
  exact ⟨reference, eq_ruleObject same, refers⟩

section Members

variable {members others : List (String × Json)}
  (same : Reordered (.object members) (.object others))

include same

theorem KeysAmong.reorder {allowed : List String} (h : KeysAmong allowed members) :
    KeysAmong allowed others := by
  intro member mem
  have listed := same.names_perm.mem_iff.mpr (List.mem_map_of_mem mem)
  obtain ⟨own, mem', name⟩ := List.mem_map.mp listed
  exact name ▸ h own mem'

theorem ReadsConditions.reorder {filter : Filter} (h : ReadsConditions dataset members filter) :
    ReadsConditions dataset others filter := by
  cases h with
  | all =>
    have none : others = [] := by simpa using same.names_perm
    exact none ▸ .all
  | filter h => exact .filter (h.reorder same)

theorem IsTransformation.reorder {group keys : List String}
    (h : IsTransformation dataset members group keys) :
    IsTransformation dataset others group keys where
  keysAmong := h.keysAmong.reorder same
  group_eq := same.fieldOf?_strings h.group_eq
  group_nonempty := h.group_nonempty
  group_refers := h.group_refers
  rules := by
    obtain ⟨items, found, each⟩ := h.rules
    obtain ⟨_, found', listed⟩ := same.exists_fieldOf? found
    obtain ⟨items', rfl, beside⟩ := listed.exists_array
    exact ⟨items', found', forall₂_transfer each beside fun _ _ _ h same => h.reorder same⟩
  keys_nodup := h.keys_nodup
  keys_proper := h.keys_proper

theorem ReadsTransformation.reorder {t : Transformation}
    (h : ReadsTransformation dataset members t) : ReadsTransformation dataset others t where
  group := by
    obtain ⟨references, found, each⟩ := h.group
    exact ⟨references, same.fieldOf?_strings found, each⟩
  rules := by
    obtain ⟨items, found, each⟩ := h.rules
    obtain ⟨_, found', listed⟩ := same.exists_fieldOf? found
    obtain ⟨items', rfl, beside⟩ := listed.exists_array
    exact ⟨items', found', forall₂_transfer each beside fun _ _ _ h same => h.reorder same⟩

end Members

section Order

variable {keys : List String} {document other : Option Json}
  (same : Option.Rel Reordered document other)

include same

theorem IsOrder.reorder {columns : List String} (h : IsOrder columns keys document) :
    IsOrder columns keys other := by
  cases same with
  | none => trivial
  | some same =>
    cases same with
    | null => trivial
    | string reference => exact h
    | object nodup names values perm =>
      have same := Reordered.object nodup names values perm
      obtain ⟨among, ⟨direction, dir⟩, references, listed, rest⟩ := h
      exact ⟨among.reorder same, ⟨direction, same.fieldOf?_string dir⟩, references,
        same.fieldOf?_strings listed, rest⟩
    | _ => exact h.elim

theorem ReadsOrder.reorder {order : Option Order} (h : ReadsOrder dataset keys document order) :
    ReadsOrder dataset keys other order := by
  cases h with
  | absent =>
    cases same
    exact .absent
  | null =>
    cases same with
    | some same =>
      cases same
      exact .null
  | key resolves =>
    cases same with
    | some same =>
      obtain rfl := same.eq_string
      exact .key resolves
  | object dir listed each =>
    cases same with
    | some same =>
      obtain ⟨others, rfl, members⟩ := same.exists_object
      exact .object (members.fieldOf?_string dir) (members.fieldOf?_strings listed) each

end Order

/-! ## The parts of a query -/

theorem IsGrouping.reorder {grouping other : Option (List (String × Json))}
    {group : Option (List String)} {keys : List String}
    (h : IsGrouping dataset grouping group keys) (same : SameGrouping grouping other) :
    IsGrouping dataset other group keys := by
  cases same with
  | none => exact h
  | some same =>
    cases h with
    | some h => exact .some (h.reorder same)

theorem ReadsGrouping.reorder {grouping other : Option (List (String × Json))}
    {t : Option Transformation} (h : Option.Rel (ReadsTransformation dataset) grouping t)
    (same : SameGrouping grouping other) : Option.Rel (ReadsTransformation dataset) other t := by
  cases same with
  | none => exact h
  | some same =>
    cases h with
    | some h => exact .some (h.reorder same)

theorem IsOptionalObject.reorder {document other : Option Json}
    {grouping : Option (List (String × Json))} (h : IsOptionalObject document grouping)
    (same : Option.Rel Reordered document other) :
    ∃ others, IsOptionalObject other others ∧ SameGrouping grouping others := by
  cases h with
  | absent =>
    cases same
    exact ⟨_, .absent, .none⟩
  | null =>
    cases same with
    | some same =>
      cases same
      exact ⟨_, .null, .none⟩
  | object members =>
    cases same with
    | some same =>
      obtain ⟨others, rfl, members⟩ := same.exists_object
      exact ⟨_, .object others, .some members⟩

theorem IsOptions.reorder {group : Option (List String)} {keys columns : List String}
    {members others : List (String × Json)} (h : IsOptions dataset group keys members columns)
    (same : Reordered (.object members) (.object others)) :
    IsOptions dataset group keys others columns where
  keysAmong := h.keysAmong.reorder same
  columns_eq := same.fieldOf?_strings h.columns_eq
  columns_ok := h.columns_ok
  order := h.order.reorder (same.fieldOf? "ORDER")

/-- The parts of a document in another order are parts of the document in another order, and stand
for the same plan. -/
theorem Parts.Outlines.exists_reordered {parts : Parts} {datasets : List Descriptor}
    {document other : Json} (h : parts.Outlines datasets document)
    (same : document.Reordered other) :
    ∃ others : Parts, others.Outlines datasets other ∧
      ∀ plan, parts.Reads plan → others.Reads plan := by
  obtain ⟨members, rfl, among, hw, ho, optional⟩ := h.sections
  obtain ⟨members', rfl, sections⟩ := same.exists_object
  obtain ⟨conditions, hw', sameConditions⟩ := sections.exists_fieldOf?_object hw
  obtain ⟨options, ho', sameOptions⟩ := sections.exists_fieldOf?_object ho
  obtain ⟨grouping, optional', sameGrouping⟩ :=
    optional.reorder (sections.fieldOf? "TRANSFORMATIONS")
  refine ⟨⟨parts.dataset, conditions, options, parts.columns, grouping, parts.group, parts.keys⟩,
    ?_, ?_⟩
  · exact {
      sections := ⟨members', rfl, among.reorder sections, hw', ho', optional'⟩
      target := h.target
      grouping := h.grouping.reorder sameGrouping
      options := h.options.reorder sameOptions }
  · intro plan reads
    exact {
      dataset := reads.dataset
      filter := reads.filter.reorder sameConditions
      columns := reads.columns
      order := reads.order.reorder (sameOptions.fieldOf? "ORDER")
      transformation := ReadsGrouping.reorder reads.transformation sameGrouping }

theorem ofDocument_reorder {datasets : List Descriptor} {document other : Json} {plan : Plan}
    (h : Plan.ofDocument datasets document = .ok plan) (same : document.Reordered other) :
    Plan.ofDocument datasets other = .ok plan := by
  obtain ⟨parts, outlines, reads⟩ := ofDocument_eq_ok_plan.mp h
  obtain ⟨others, outlines', keeps⟩ := outlines.exists_reordered same
  exact ofDocument_eq_ok_plan.mpr ⟨others, outlines', keeps plan reads⟩

/-- Documents that are the same but for the order of their members have the same plan, or neither
has one. -/
theorem ofDocument_reordered {a b : Json} (same : a.Reordered b) (datasets : List Descriptor) :
    (∃ plan, Plan.ofDocument datasets a = .ok plan ∧ Plan.ofDocument datasets b = .ok plan) ∨
      ∃ defect defect', Plan.ofDocument datasets a = .error defect ∧
        Plan.ofDocument datasets b = .error defect' := by
  cases planned : Plan.ofDocument datasets a with
  | ok plan => exact .inl ⟨plan, rfl, ofDocument_reorder planned same⟩
  | error defect =>
    cases planned' : Plan.ofDocument datasets b with
    | error defect' => exact .inr ⟨defect, defect', rfl, rfl⟩
    | ok plan =>
      rw [ofDocument_reorder planned' same.symm] at planned
      cases planned

/-- The departments by average, with the members of the query and of its options the other way
round. -/
def byAverageReversed : Json :=
  .object
    [("OPTIONS", .object
        [("ORDER", .string "sections_avg"),
          ("COLUMNS", .array
            [.string "sections_dept", .string "sections_avg", .string "sections_dept"])]),
      ("WHERE", .object [])]

theorem reordered_byAverage : Catalog.byAverage.Reordered byAverageReversed := by
  have columns : Reordered
      (.array [.string "sections_dept", .string "sections_avg", .string "sections_dept"])
      (.array [.string "sections_dept", .string "sections_avg", .string "sections_dept"]) :=
    .array (.cons (.string _) (.cons (.string _) (.cons (.string _) .nil)))
  have conditions : Reordered (.object []) (.object []) := .object .nil rfl .nil .nil
  refine .object ?_ ?_ ?values (.swap _ _ [])
  case values =>
    refine .cons conditions (.cons ?options .nil)
    refine .object ?_ ?_ ?values (.swap _ _ [])
    case values => exact .cons columns (.cons (.string _) .nil)
    all_goals simp
  all_goals simp

theorem ofDocument_reordered_byAverage :
    Catalog.byAverage.Reordered byAverageReversed ∧
      ∃ plan, Plan.ofDocument Catalog.courses.descriptors Catalog.byAverage = .ok plan ∧
        Plan.ofDocument Catalog.courses.descriptors byAverageReversed = .ok plan := by
  refine ⟨reordered_byAverage, ?_⟩
  have planned : ∃ plan,
      Plan.ofDocument Catalog.courses.descriptors Catalog.byAverage = .ok plan := ⟨_, by cbv⟩
  obtain ⟨plan, planned⟩ := planned
  rcases ofDocument_reordered reordered_byAverage Catalog.courses.descriptors with
    same | ⟨defect, _, failed, _⟩
  · exact same
  · rw [planned] at failed
    cases failed

end CampusQuery.Query
