import CampusQuery.Proofs.Catalog.Admission

/-!
# Catalogs over time

A history is a list of operations on a catalog that is empty at first. `Catalog.Valid` is kept by
every operation (`Valid.after`), so it holds after every history (`Reachable.valid`).

`exists_dataset` is what the two look-ups of a query have in common: the descriptor that a plan is
made against is that of the dataset whose rows it is run on.
-/

namespace CampusQuery

inductive Operation
  | add (table : Table)
  /-- Adds the tables of a file one after another. -/
  | load (tables : List Table)
  | remove (id : String)
  | query (document : Json)

namespace Catalog

/-- The catalog after an operation. -/
def after (catalog : Catalog) : Operation → Catalog
  | .add table => (catalog.add table).1
  | .load tables => (catalog.addAll tables).1
  | .remove id => (catalog.remove id).1
  | .query _ => catalog

/-- The catalog after a history, the first operation first. -/
def ofHistory (history : List Operation) : Catalog := history.foldl after empty

def Reachable (catalog : Catalog) : Prop := ∃ history, catalog = ofHistory history

end Catalog

structure Dataset.Valid (dataset : Dataset) : Prop where
  id : isValidId dataset.id = true
  rows_ne_nil : dataset.rows ≠ []
  admits : ∀ row ∈ dataset.rows, dataset.kind.Admits row
  rowCount : dataset.descriptor.rowCount = dataset.rows.length

theorem Table.Valid.dataset {table : Table} (h : table.Valid) : table.dataset.Valid :=
  ⟨h.id, h.rows_ne_nil, h.admits, rfl⟩

namespace Catalog

structure Valid (catalog : Catalog) : Prop where
  ids_nodup : catalog.ids.Nodup
  dataset : ∀ dataset ∈ catalog.datasets, dataset.Valid

theorem valid_empty : empty.Valid where
  ids_nodup := List.nodup_nil
  dataset := by simp [empty]

theorem Valid.concat {catalog : Catalog} (h : catalog.Valid) {table : Table} (valid : table.Valid)
    (fresh : table.id ∉ catalog.ids) : Valid ⟨catalog.datasets ++ [table.dataset]⟩ := by
  refine ⟨?_, fun other ho => ?_⟩
  · rw [ids, List.map_append, List.nodup_append]
    refine ⟨h.ids_nodup, by simp, fun id old other new same => fresh ?_⟩
    have new_id : other = table.id := List.mem_singleton.mp new
    rw [← new_id, ← same]
    exact old
  · rcases List.mem_append.mp ho with old | new
    · exact h.dataset other old
    · obtain rfl := List.mem_singleton.mp new
      exact valid.dataset

theorem Valid.add {catalog : Catalog} (h : catalog.Valid) (table : Table) :
    (catalog.add table).1.Valid := by
  rcases catalog.add_cases table with ⟨valid, fresh, added⟩ | ⟨_, error, refused⟩
  · rw [added]
    exact h.concat valid fresh
  · rwa [refused]

theorem Valid.addAll {catalog : Catalog} (h : catalog.Valid) (tables : List Table) :
    (catalog.addAll tables).1.Valid := by
  induction tables generalizing catalog with
  | nil => exact h
  | cons table tables ih =>
    have reached := h.add table
    rw [Catalog.addAll]
    generalize catalog.add table = outcome at reached
    obtain ⟨next, listed | error⟩ := outcome
    · exact reached
    · exact ih reached

theorem Valid.remove {catalog : Catalog} (h : catalog.Valid) (id : String) :
    (catalog.remove id).1.Valid := by
  rcases catalog.remove_cases id with ⟨_, _, done⟩ | ⟨_, error, refused⟩
  · rw [done]
    have kept : (catalog.datasets.eraseP (·.id = id)).Sublist catalog.datasets :=
      List.eraseP_sublist
    exact ⟨h.ids_nodup.sublist (kept.map _), fun dataset hd => h.dataset dataset (kept.subset hd)⟩
  · rwa [refused]

/-- Every operation keeps a catalog valid. -/
theorem Valid.after {catalog : Catalog} (h : catalog.Valid) (operation : Operation) :
    (catalog.after operation).Valid := by
  cases operation with
  | add table => exact h.add table
  | load tables => exact h.addAll tables
  | remove id => exact h.remove id
  | query document => exact h

theorem Valid.foldl_after {catalog : Catalog} (h : catalog.Valid) (history : List Operation) :
    (history.foldl Catalog.after catalog).Valid := by
  induction history generalizing catalog with
  | nil => exact h
  | cons operation history ih => exact ih (h.after operation)

theorem Reachable.valid {catalog : Catalog} (h : catalog.Reachable) : catalog.Valid := by
  obtain ⟨history, rfl⟩ := h
  exact valid_empty.foldl_after history

theorem find?_descriptors (catalog : Catalog) (id : String) :
    catalog.descriptors.find? (·.id = id) = (catalog.find? id).map Dataset.descriptor := by
  rw [descriptors, List.find?_map]
  rfl

theorem mem_of_find? {catalog : Catalog} {id : String} {dataset : Dataset}
    (h : catalog.find? id = some dataset) : dataset ∈ catalog.datasets :=
  List.mem_of_find?_eq_some h

theorem id_of_find? {catalog : Catalog} {id : String} {dataset : Dataset}
    (h : catalog.find? id = some dataset) : dataset.id = id := by
  simpa using List.find?_some h

/-- The first descriptor under an id is that of the dataset that holds the rows. -/
theorem exists_dataset {catalog : Catalog} {id : String} {descriptor : Descriptor}
    (h : catalog.descriptors.find? (·.id = id) = some descriptor) :
    ∃ dataset ∈ catalog.datasets, descriptor = dataset.descriptor ∧
      catalog.rows? id = some dataset.rows := by
  rw [find?_descriptors, Option.map_eq_some_iff] at h
  obtain ⟨dataset, found, rfl⟩ := h
  exact ⟨dataset, mem_of_find? found, rfl, by rw [rows?, found]; rfl⟩

/-! ## A catalog of courses -/

theorem reachable_singleton {table : Table} (valid : table.Valid) :
    Reachable ⟨[table.dataset]⟩ :=
  ⟨[.add table], (@add_of_valid empty table valid List.not_mem_nil).symm⟩

end Catalog

def Row.course (dept title : String) (avg : Int64) : Row :=
  let cells : List (String × Cell) :=
    [("dept", .text dept), ("id", .text "310"), ("instructor", .text "holmes"),
      ("title", .text title), ("uuid", .text "1"), ("avg", .integer avg), ("pass", .integer 90),
      ("fail", .integer 3), ("audit", .integer 0), ("year", .integer 2015)]
  .ofList cells

def Table.courses : Table where
  id := "sections"
  kind := .sections
  rows := [.course "cpsc" "intro" 80, .course "math" "algebra" 70, .course "cpsc" "theory" 90]

theorem Table.valid_courses : courses.Valid where
  id := by cbv
  rows_ne_nil := List.cons_ne_nil _ _
  admits := Catalog.invalidRow?_eq_none.mp (by cbv)

def Catalog.courses : Catalog := ⟨[Table.courses.dataset]⟩

theorem Catalog.reachable_courses : courses.Reachable := reachable_singleton Table.valid_courses

end CampusQuery
