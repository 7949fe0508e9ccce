import CampusQuery.DatasetFile
import CampusQuery.Proofs.Cell
import CampusQuery.Proofs.Json.RoundTrip
import CampusQuery.ResultRow

/-!
# Results in JSON read back

Result rows without binary64 numbers lose nothing in JSON: from the compact text and from the
indented one the same document is read, an array with an object for each row, whose members are the
cells of the row in their order (`read?_ofRows`).
-/

namespace CampusQuery

namespace Cell.Exact

variable {cell : Cell} (h : cell.Exact)

include h

theorem ofJson? : Cell.ofJson? (.ofCell cell) = some cell := by
  cases h with
  | integer n => rw [Json.ofCell, Cell.ofJson?, Cell.ofInt?_eq_some.mpr rfl]
  | text s => rfl

theorem readable (opened : Nat) : Json.Readable opened (.ofCell cell) := by
  cases h with
  | integer n =>
    have lower := Int64.le_toInt n
    have upper := Int64.toInt_lt n
    exact .integer lower (by omega)
  | text s => exact .string s

end Cell.Exact

namespace ResultRow

/-- The members of the object that a row is written as. -/
def members (row : ResultRow) : List (String × Json) :=
  row.cells.map fun (name, cell) => (name, .ofCell cell)

theorem names_members (row : ResultRow) : row.members.map Prod.fst = row.names := by
  rw [members, List.map_map]
  rfl

theorem readable_members {row : ResultRow} (exact : ∀ entry ∈ row.cells, entry.2.Exact) :
    Json.Readable 1 (.object row.members) := by
  have names : (row.members.map Prod.fst).Nodup := row.names_members ▸ row.names_nodup
  refine .object (by decide) names fun field mem => ?_
  obtain ⟨entry, inside, rfl⟩ := List.mem_map.mp mem
  exact (exact entry inside).readable 2

theorem readable_ofRows {rows : List ResultRow}
    (exact : ∀ row ∈ rows, ∀ entry ∈ row.cells, entry.2.Exact) :
    Json.Readable 0 (.ofRows rows) := by
  refine .array (by decide) fun item mem => ?_
  obtain ⟨row, inside, rfl⟩ := List.mem_map.mp mem
  exact readable_members (exact row inside)

/-- Rows are read back from JSON text, compact or indented, row by row and cell by cell. -/
theorem read?_ofRows (rows : List ResultRow)
    (exact : ∀ row ∈ rows, ∀ entry ∈ row.cells, entry.2.Exact) :
    ∃ objects : List (List (String × Json)),
      Json.read? (Json.ofRows rows).compact = some (.array (objects.map .object)) ∧
      Json.read? (Json.ofRows rows).pretty = some (.array (objects.map .object)) ∧
      List.Forall₂ (fun (row : ResultRow) fields =>
        List.Forall₂ (fun entry field => field.1 = entry.1 ∧
          Cell.ofJson? field.2 = some entry.2) row.cells fields) rows objects := by
  have readable := readable_ofRows exact
  have document : Json.ofRows rows = .array ((rows.map members).map .object) := by
    rw [Json.ofRows, List.map_map]
    rfl
  refine ⟨rows.map members, document ▸ readable.read?_write Json.Layout.blank_compact,
    document ▸ readable.read?_write Json.Layout.blank_indented, ?_⟩
  rw [List.forall₂_map_right_iff, List.forall₂_same]
  intro row mem
  rw [members, List.forall₂_map_right_iff, List.forall₂_same]
  exact fun entry inside => ⟨rfl, (exact row mem entry inside).ofJson?⟩

/-- The least and the greatest integer, and texts that need escapes, as names too. -/
def extremes : List ResultRow :=
  [⟨[("least", .integer Int64.minValue), ("greatest", .integer Int64.maxValue)], by decide⟩,
    ⟨[("\"quoted\"", .text "a\\b"), ("", .text "tab\t, line\n, \x01"), ("é", .text "")],
      by decide⟩,
    .empty]

theorem read?_ofRows_extremes :
    (∀ row ∈ extremes, ∀ entry ∈ row.cells, entry.2.Exact) ∧
      ∃ objects : List (List (String × Json)),
        Json.read? (Json.ofRows extremes).compact = some (.array (objects.map .object)) ∧
        Json.read? (Json.ofRows extremes).pretty = some (.array (objects.map .object)) ∧
        List.Forall₂ (fun (row : ResultRow) fields =>
          List.Forall₂ (fun entry field => field.1 = entry.1 ∧
            Cell.ofJson? field.2 = some entry.2) row.cells fields) extremes objects :=
  ⟨by decide, read?_ofRows extremes (by decide)⟩

end ResultRow

end CampusQuery
