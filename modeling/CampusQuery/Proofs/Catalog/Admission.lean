import Mathlib
import CampusQuery.Catalog

/-!
# What enters the catalog

`Kind.Admits` says of a row that it has exactly the fields of a kind, each with a cell of its type,
and `rowDefect?_eq_none` that exactly these rows have no defect. `Table.Valid` says the same of a
table. The two changes of a catalog are then

* `add_eq_ok`: a valid table with a new id comes last, and `addAll_eq_none` is the same of a list;
* `remove_eq_ok`: the dataset with the id is taken out;

and if they are refused the catalog is as it was (`eq_of_add_error`, `eq_of_remove_error`).
-/

namespace CampusQuery

/-- A row that a dataset of the kind may hold. -/
structure Kind.Admits (kind : Kind) (row : Row) : Prop where
  cell : ∀ field ∈ kind.fields, ∃ cell, row[field.name]? = some cell ∧ field.type.admits cell = true
  field : ∀ name ∈ row, ∃ field ∈ kind.fields, field.name = name

theorem Field.defect?_eq_none {field : Field} {row : Row} :
    field.defect? row = none ↔
      ∃ cell, row[field.name]? = some cell ∧ field.type.admits cell = true := by
  unfold defect?
  split
  · rename_i absent
    simp [absent]
  · rename_i cell found
    simp [found]

theorem Kind.unexpected?_eq_none {kind : Kind} {row : Row} :
    kind.unexpected? row = none ↔ ∀ name ∈ row, ∃ field ∈ kind.fields, field.name = name := by
  have none : kind.unexpected? row = none ↔
      (row.keys.filter fun name => (kind.field? name).isNone) = [] := by
    unfold unexpected?
    split <;> simp_all
  rw [none]
  simp [List.filter_eq_nil_iff, Std.ExtTreeMap.mem_keys, field?]

/-- The text about unexpected fields names one of them, whichever it is. -/
theorem Kind.exists_named_unexpected {kind : Kind} {row : Row} {defect : RowDefect}
    (found : kind.unexpected? row = some defect) (wording : Wording) :
    ∃ name ∈ row, (∀ field ∈ kind.fields, field.name ≠ name) ∧
      defect.message wording = "unexpected field '" ++ name ++ "' for " ++ kind.name := by
  rw [unexpected?] at found
  split at found
  · cases found
  · rename_i nonempty
    cases found
    have mem := wording.pick_mem nonempty
    rw [List.mem_filter, Std.ExtTreeMap.mem_keys, field?, Option.isNone_iff_eq_none,
      List.find?_eq_none] at mem
    exact ⟨_, mem.1, fun field hf same => mem.2 field hf (decide_eq_true same), rfl⟩

/-- A row has no defect exactly if the kind admits it. -/
theorem Kind.rowDefect?_eq_none {kind : Kind} {row : Row} :
    kind.rowDefect? row = none ↔ kind.Admits row := by
  simp only [rowDefect?, Option.or_eq_none_iff, List.findSome?_eq_none_iff, Field.defect?_eq_none,
    unexpected?_eq_none]
  exact ⟨fun ⟨cell, field⟩ => ⟨cell, field⟩, fun h => ⟨h.cell, h.field⟩⟩

theorem Kind.Admits.numeric {kind : Kind} {row : Row} (h : kind.Admits row) {field : Field}
    (found : field ∈ kind.fields) (numeric : field.type = .numeric) :
    ∃ cell, row[field.name]? = some cell ∧ cell.isNumber = true := by
  obtain ⟨cell, hc, admits⟩ := h.cell field found
  rw [numeric] at admits
  exact ⟨cell, hc, admits⟩

theorem Kind.Admits.text {kind : Kind} {row : Row} (h : kind.Admits row) {field : Field}
    (found : field ∈ kind.fields) (text : field.type = .text) :
    ∃ s, row[field.name]? = some (.text s) := by
  obtain ⟨cell, hc, admits⟩ := h.cell field found
  rw [text] at admits
  cases cell with
  | text s => exact ⟨s, hc⟩
  | integer => cases admits
  | float => cases admits

/-! ## Tables -/

structure Table.Valid (table : Table) : Prop where
  id : isValidId table.id = true
  rows_ne_nil : table.rows ≠ []
  admits : ∀ row ∈ table.rows, table.kind.Admits row

namespace Catalog

theorem invalidRow?_eq_none {kind : Kind} {rows : List Row} :
    invalidRow? kind rows = none ↔ ∀ row ∈ rows, kind.Admits row := by
  simp only [invalidRow?, List.findSome?_eq_none_iff, Option.map_eq_none_iff,
    Kind.rowDefect?_eq_none, Prod.forall]
  refine ⟨fun h row hr => ?_, fun h row index hr => h row (List.fst_mem_of_mem_zipIdx hr)⟩
  obtain ⟨index, hi, rfl⟩ := List.mem_iff_getElem.mp hr
  exact h _ index (by simp [List.mk_mem_zipIdx_iff_getElem?])

/-- A table is added at the end, or the catalog is as it was. -/
theorem add_cases (catalog : Catalog) (table : Table) :
    (table.Valid ∧ table.id ∉ catalog.ids ∧ catalog.add table =
        (⟨catalog.datasets ++ [table.dataset]⟩, .ok (ids ⟨catalog.datasets ++ [table.dataset]⟩))) ∨
      ¬ (table.Valid ∧ table.id ∉ catalog.ids) ∧
        ∃ error, catalog.add table = (catalog, .error error) := by
  rw [add]
  split
  · rename_i improper
    exact .inr ⟨fun ⟨valid, _⟩ => by simp [valid.id] at improper, _, rfl⟩
  rename_i proper
  split
  · rename_i empty
    exact .inr ⟨fun ⟨valid, _⟩ => valid.rows_ne_nil (List.isEmpty_iff.mp empty), _, rfl⟩
  rename_i nonempty
  split
  · rename_i refused
    refine .inr ⟨fun ⟨valid, _⟩ => ?_, _, rfl⟩
    exact absurd (refused.symm.trans (invalidRow?_eq_none.mpr valid.admits)) nofun
  rename_i admitted
  split
  · rename_i present
    exact .inr ⟨fun ⟨_, fresh⟩ => fresh present, _, rfl⟩
  · rename_i fresh
    exact .inl ⟨⟨by simpa using proper, by simpa using nonempty, invalidRow?_eq_none.mp admitted⟩,
      fresh, rfl⟩

section Add

variable {catalog next : Catalog} {table : Table} {listed : List String} {error : CatalogError}

theorem add_eq_ok : catalog.add table = (next, .ok listed) ↔
    table.Valid ∧ table.id ∉ catalog.ids ∧ next = ⟨catalog.datasets ++ [table.dataset]⟩ ∧
      listed = next.ids := by
  rcases catalog.add_cases table with ⟨valid, fresh, added⟩ | ⟨unfit, error, refused⟩
  · rw [added]
    constructor
    · rintro ⟨⟩
      exact ⟨valid, fresh, rfl, rfl⟩
    · rintro ⟨_, _, rfl, rfl⟩
      rfl
  · rw [refused]
    exact ⟨nofun, fun ⟨valid, fresh, _⟩ => absurd ⟨valid, fresh⟩ unfit⟩

theorem eq_of_add_error (refused : catalog.add table = (next, .error error)) : next = catalog := by
  rcases catalog.add_cases table with ⟨_, _, added⟩ | ⟨_, error, same⟩
  · exact absurd (added.symm.trans refused) nofun
  · rw [refused] at same
    exact congrArg Prod.fst same

theorem add_of_valid (valid : table.Valid) (fresh : table.id ∉ catalog.ids) :
    (catalog.add table).1 = ⟨catalog.datasets ++ [table.dataset]⟩ := by
  rw [add_eq_ok.mpr ⟨valid, fresh, rfl, rfl⟩]

end Add

theorem mem_ids_concat {catalog : Catalog} {table : Table} {id : String} :
    id ∈ ids ⟨catalog.datasets ++ [table.dataset]⟩ ↔ id ∈ catalog.ids ∨ id = table.id := by
  rw [ids, List.map_append, List.mem_append, List.map_singleton, List.mem_singleton]
  rfl

/-- All of the tables enter if each may, and no two of them have the same id. -/
theorem addAll_eq_none {catalog next : Catalog} {tables : List Table} :
    catalog.addAll tables = (next, none) ↔
      (∀ table ∈ tables, table.Valid) ∧ (∀ table ∈ tables, table.id ∉ catalog.ids) ∧
        (tables.map Table.id).Nodup ∧ next = ⟨catalog.datasets ++ tables.map Table.dataset⟩ := by
  induction tables generalizing catalog with
  | nil => simp [addAll, eq_comm]
  | cons table tables ih =>
    rw [addAll]
    simp only [List.forall_mem_cons, List.map_cons, List.nodup_cons]
    rcases catalog.add_cases table with ⟨valid, fresh, added⟩ | ⟨unfit, error, refused⟩
    · simp only [added, ih, mem_ids_concat, List.append_assoc, List.singleton_append]
      constructor
      · rintro ⟨each, others, nodup, rfl⟩
        refine ⟨⟨valid, each⟩, ⟨fresh, fun other mem => (not_or.mp (others other mem)).1⟩,
          ⟨fun mem => ?_, nodup⟩, rfl⟩
        obtain ⟨other, mem, same⟩ := List.mem_map.mp mem
        exact (not_or.mp (others other mem)).2 same
      · rintro ⟨⟨_, each⟩, ⟨_, others⟩, ⟨new, nodup⟩, rfl⟩
        refine ⟨each, fun other mem => not_or.mpr ⟨others other mem, fun same => new ?_⟩, nodup, rfl⟩
        exact List.mem_map.mpr ⟨other, mem, same⟩
    · simp only [refused]
      exact ⟨nofun, fun ⟨⟨valid, _⟩, ⟨fresh, _⟩, _⟩ => absurd ⟨valid, fresh⟩ unfit⟩

/-- A dataset is taken out, or the catalog is as it was. -/
theorem remove_cases (catalog : Catalog) (id : String) :
    (isValidId id = true ∧ id ∈ catalog.ids ∧
        catalog.remove id = (⟨catalog.datasets.eraseP (·.id = id)⟩, .ok id)) ∨
      ¬ (isValidId id = true ∧ id ∈ catalog.ids) ∧
        ∃ error, catalog.remove id = (catalog, .error error) := by
  rw [remove]
  split
  · rename_i improper
    exact .inr ⟨fun ⟨valid, _⟩ => by simp [valid] at improper, _, rfl⟩
  rename_i proper
  split
  · rename_i present
    exact .inl ⟨by simpa using proper, present, rfl⟩
  · rename_i absent
    exact .inr ⟨fun ⟨_, present⟩ => absent present, _, rfl⟩

section Remove

variable {catalog next : Catalog} {id removed : String} {error : CatalogError}

theorem remove_eq_ok : catalog.remove id = (next, .ok removed) ↔
    isValidId id = true ∧ id ∈ catalog.ids ∧ next = ⟨catalog.datasets.eraseP (·.id = id)⟩ ∧
      removed = id := by
  rcases catalog.remove_cases id with ⟨valid, present, done⟩ | ⟨unfit, error, refused⟩
  · rw [done]
    constructor
    · rintro ⟨⟩
      exact ⟨valid, present, rfl, rfl⟩
    · rintro ⟨_, _, rfl, rfl⟩
      rfl
  · rw [refused]
    exact ⟨nofun, fun ⟨valid, present, _⟩ => absurd ⟨valid, present⟩ unfit⟩

theorem eq_of_remove_error (refused : catalog.remove id = (next, .error error)) :
    next = catalog := by
  rcases catalog.remove_cases id with ⟨_, _, done⟩ | ⟨_, error, same⟩
  · exact absurd (done.symm.trans refused) nofun
  · rw [refused] at same
    exact congrArg Prod.fst same

end Remove

end Catalog

end CampusQuery
