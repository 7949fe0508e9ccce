import CampusQuery.Proofs.Catalog.History
import CampusQuery.Proofs.Distinct

/-!
# What a catalog holds

`Catalog.Sound` says of a catalog what queries take for granted without looking: no two datasets
have the same id, an id can be told apart in a reference, the rows under an id are as many as its
descriptor says, and each has the fields of its kind and no other. `sound_of_reachable` is that
this holds whatever has been done to the catalog.

`rows?_of_mem` is what distinct ids are for: the rows under the id of a dataset are its own.
-/

namespace CampusQuery

/-- An id that is not blank and holds no underscore. -/
structure ProperId (id : String) : Prop where
  nonblank : ∃ c ∈ id.toList, Text.isBlankChar c = false
  unqualified : '_' ∉ id.toList

theorem isValidId_iff {id : String} : isValidId id = true ↔ ProperId id := by
  have nonblank : Text.isBlank id = false ↔ ∃ c ∈ id.toList, Text.isBlankChar c = false := by
    simp [Text.isBlank]
  simp only [isValidId, Bool.and_eq_true, Bool.not_eq_true', nonblank, decide_eq_true_eq]
  constructor
  · rintro ⟨nonblank, unqualified⟩
    exact ⟨nonblank, unqualified⟩
  · exact fun h => ⟨h.nonblank, h.unqualified⟩

theorem isValidId_eq_false {id : String} (improper : ¬ProperId id) : isValidId id = false := by
  rwa [← Bool.not_eq_true, isValidId_iff]

/-- A row whose fields are those of the kind, with a number in each numeric field and a text in each
text field. -/
structure Kind.Conforms (kind : Kind) (row : Row) : Prop where
  fields : ∀ name, name ∈ row ↔ name ∈ kind.fields.map Field.name
  number : ∀ field ∈ kind.fields, field.type = .numeric →
    (∃ n, row[field.name]? = some (.integer n)) ∨ ∃ x, row[field.name]? = some (.float x)
  text : ∀ field ∈ kind.fields, field.type = .text → ∃ s, row[field.name]? = some (.text s)

theorem Kind.conforms_iff {kind : Kind} {row : Row} : kind.Conforms row ↔ kind.Admits row where
  mp h :=
    { cell := fun field found => by
        cases type : field.type with
        | numeric =>
          rcases h.number field found type with ⟨n, hc⟩ | ⟨x, hc⟩
          · exact ⟨_, hc, rfl⟩
          · exact ⟨_, hc, rfl⟩
        | text =>
          obtain ⟨s, hc⟩ := h.text field found type
          exact ⟨_, hc, rfl⟩
      field := fun name mem => List.mem_map.mp ((h.fields name).mp mem) }
  mpr h :=
    { fields := fun name => by
        rw [List.mem_map]
        refine ⟨h.field name, fun ⟨field, found, hn⟩ => ?_⟩
        obtain ⟨cell, hc, _⟩ := h.cell field found
        rw [← hn, Std.ExtTreeMap.mem_iff_isSome_getElem?, hc]
        rfl
      number := fun field found numeric => by
        obtain ⟨cell, hc, number⟩ := h.numeric found numeric
        cases cell with
        | integer n => exact .inl ⟨n, hc⟩
        | float x => exact .inr ⟨x, hc⟩
        | text => cases number
      text := fun field found text => h.text found text }

theorem Table.valid_iff {table : Table} :
    table.Valid ↔ ProperId table.id ∧ table.rows ≠ [] ∧
      ∀ row ∈ table.rows, table.kind.Conforms row := by
  simp only [Kind.conforms_iff, ← isValidId_iff]
  constructor
  · exact fun h => ⟨h.id, h.rows_ne_nil, h.admits⟩
  · exact fun ⟨id, nonempty, admits⟩ => ⟨id, nonempty, admits⟩

namespace Catalog

theorem find?_eq_none_iff {catalog : Catalog} {id : String} :
    catalog.find? id = none ↔ id ∉ catalog.ids := by
  rw [find?, List.find?_eq_none, ids, List.mem_map]
  simp

theorem find?_of_mem {catalog : Catalog} (nodup : catalog.ids.Nodup) {dataset : Dataset}
    (mem : dataset ∈ catalog.datasets) : catalog.find? dataset.id = some dataset :=
  find?_eq_some_of_mem nodup mem

/-- The rows under the id of a dataset are its own. -/
theorem rows?_of_mem {catalog : Catalog} (nodup : catalog.ids.Nodup) {dataset : Dataset}
    (mem : dataset ∈ catalog.datasets) : catalog.rows? dataset.id = some dataset.rows := by
  rw [rows?, find?_of_mem nodup mem]
  rfl

/-- Ids are proper and distinct, descriptors tell how many rows there are, and rows conform to the
kind of their dataset. -/
structure Sound (catalog : Catalog) : Prop where
  ids_nodup : (catalog.descriptors.map Descriptor.id).Nodup
  id : ∀ descriptor ∈ catalog.descriptors, ProperId descriptor.id
  rowCount : ∀ descriptor ∈ catalog.descriptors, ∃ rows,
    catalog.rows? descriptor.id = some rows ∧ descriptor.rowCount = rows.length ∧
      1 ≤ descriptor.rowCount
  row : ∀ dataset ∈ catalog.datasets, ∀ row ∈ dataset.rows, dataset.kind.Conforms row

theorem Valid.sound {catalog : Catalog} (valid : catalog.Valid) : catalog.Sound where
  ids_nodup := by
    rw [descriptors, List.map_map]
    exact valid.ids_nodup
  id descriptor mem := by
    obtain ⟨dataset, hd, rfl⟩ := List.mem_map.mp mem
    exact isValidId_iff.mp (valid.dataset dataset hd).id
  rowCount descriptor mem := by
    obtain ⟨dataset, hd, rfl⟩ := List.mem_map.mp mem
    have own := valid.dataset dataset hd
    refine ⟨dataset.rows, rows?_of_mem valid.ids_nodup hd, own.rowCount, ?_⟩
    rw [own.rowCount]
    exact List.length_pos_of_ne_nil own.rows_ne_nil
  row dataset mem row hr := Kind.conforms_iff.mpr ((valid.dataset dataset mem).admits row hr)

/-- Whatever has been done to a catalog, what it holds is sound. -/
theorem sound_of_reachable {catalog : Catalog} (reachable : catalog.Reachable) : catalog.Sound :=
  reachable.valid.sound

/-! ## A second dataset -/

theorem Reachable.after {catalog : Catalog} (h : catalog.Reachable) (operation : Operation) :
    (catalog.after operation).Reachable := by
  obtain ⟨history, rfl⟩ := h
  exact ⟨history ++ [operation], by rw [ofHistory, ofHistory, List.foldl_append]; rfl⟩

theorem Reachable.add {catalog : Catalog} (h : catalog.Reachable) {table : Table}
    (valid : table.Valid) (fresh : table.id ∉ catalog.ids) :
    Reachable ⟨catalog.datasets ++ [table.dataset]⟩ := by
  have reached := h.after (.add table)
  rwa [Catalog.after, add_of_valid valid fresh] at reached

end Catalog

/-- Courses of an earlier time, under an id of their own. -/
def Table.archive : Table where
  id := "archive"
  kind := .sections
  rows := [.course "phys" "optics" 60]

theorem Table.valid_archive : archive.Valid where
  id := by cbv
  rows_ne_nil := List.cons_ne_nil _ _
  admits := Catalog.invalidRow?_eq_none.mp (by cbv)

namespace Catalog

/-- The archive was there before the courses. -/
def archived : Catalog := ⟨[Table.archive.dataset, Table.courses.dataset]⟩

theorem reachable_archived : archived.Reachable :=
  (reachable_singleton Table.valid_archive).add Table.valid_courses (by decide)

theorem sound_archived : archived.Reachable ∧ archived.Sound :=
  ⟨reachable_archived, sound_of_reachable reachable_archived⟩

end Catalog

end CampusQuery
