import CampusQuery.Proofs.Catalog.Contents
import CampusQuery.Proofs.Execution.Outcome
import CampusQuery.Proofs.Query.Target

/-!
# Datasets do not see one another

A catalog answers a query from the one dataset that the document names: two catalogs that find the
same under its id give the same answer (`answer_congr`), be it rows or an error. What other datasets
there are, and in which order they came, makes no difference (`answer_isolated`).
-/

namespace CampusQuery.Catalog

/-- Neither catalog has a dataset under the id, or both have the same one. -/
def AgreeOn (a b : Catalog) (id : String) : Prop :=
  id ∉ a.ids ∧ id ∉ b.ids ∨
    ∃ dataset, dataset.id = id ∧ dataset ∈ a.datasets ∧ dataset ∈ b.datasets

theorem AgreeOn.find?_eq {a b : Catalog} (ha : a.ids.Nodup) (hb : b.ids.Nodup) {id : String}
    (h : AgreeOn a b id) : a.find? id = b.find? id := by
  rcases h with ⟨absent_a, absent_b⟩ | ⟨dataset, rfl, mem_a, mem_b⟩
  · rw [find?_eq_none_iff.mpr absent_a, find?_eq_none_iff.mpr absent_b]
  · rw [find?_of_mem ha mem_a, find?_of_mem hb mem_b]

theorem exists_error {document : Json} (nameless : ¬∃ id, Query.Names document id)
    (catalog : Catalog) : ∃ error, catalog.answer document = .error error := by
  cases planned : Plan.ofDocument catalog.descriptors document with
  | error defect => exact ⟨_, Source.answer_of_defect planned⟩
  | ok plan => exact absurd ⟨_, Query.names_of_plan planned⟩ nameless

/-- An answer depends on the catalog only through what it has under the id that is named. -/
theorem answer_congr {a b : Catalog} {document : Json}
    (same : ∀ id, Query.Names document id → a.find? id = b.find? id) :
    a.answer document = b.answer document := by
  have plans : Plan.ofDocument a.descriptors document = Plan.ofDocument b.descriptors document :=
    Query.ofDocument_congr fun id names => by
      rw [find?_descriptors, find?_descriptors, same id names]
  cases planned : Plan.ofDocument b.descriptors document with
  | error defect =>
    have first : a.answer document = .error (.invalid defect) :=
      Source.answer_of_defect (plans.trans planned)
    have second : b.answer document = .error (.invalid defect) := Source.answer_of_defect planned
    rw [first, second]
  | ok plan =>
    obtain ⟨rows, found, first⟩ := answer_of_plan (plans.trans planned)
    obtain ⟨others, found', second⟩ := answer_of_plan planned
    rw [rows?, same _ (Query.names_of_plan planned), ← rows?, found', Option.some.injEq] at found
    rw [first, second, found]

/-- Without a dataset that it names a document gives the same error everywhere. With one, catalogs
that agree on it give the same answer. -/
theorem answer_isolated {a b : Catalog} (ha : a.Reachable) (hb : b.Reachable) (document : Json) :
    ((¬∃ id, Query.Names document id) →
      ∃ error, a.answer document = .error error ∧ b.answer document = .error error) ∧
    ∀ id, Query.Names document id → AgreeOn a b id → a.answer document = b.answer document := by
  refine ⟨fun nameless => ?_, fun id names agree => ?_⟩
  · have same : a.answer document = b.answer document :=
      answer_congr fun id names => absurd ⟨id, names⟩ nameless
    obtain ⟨error, failed⟩ := exists_error nameless a
    exact ⟨error, failed, same ▸ failed⟩
  · refine answer_congr fun other named => ?_
    rw [named.unique names]
    exact agree.find?_eq ha.valid.ids_nodup hb.valid.ids_nodup

theorem names_byAverage : Query.Names byAverage "sections" :=
  ⟨_, _, _, none, "sections_dept", _, rfl, by simp [Query.KeysAmong], rfl, rfl, rfl, .absent,
    Query.qualifier_eq_iff.mp (by cbv)⟩

theorem agreeOn_sections : AgreeOn courses archived "sections" :=
  .inr ⟨Table.courses.dataset, rfl, List.mem_singleton_self _,
    List.mem_cons_of_mem _ (List.mem_singleton_self _)⟩

theorem not_names_null : ¬∃ id, Query.Names .null id := by
  rintro ⟨_, _, _, _, _, _, _, isObject, _⟩
  nomatch isObject

theorem answer_isolated_courses :
    (∃ error, courses.answer .null = .error error ∧ archived.answer .null = .error error) ∧
      courses.answer byAverage = archived.answer byAverage :=
  ⟨(answer_isolated reachable_courses reachable_archived .null).1 not_names_null,
    (answer_isolated reachable_courses reachable_archived byAverage).2 _ names_byAverage
      agreeOn_sections⟩

end CampusQuery.Catalog
