import CampusQuery.Proofs.Catalog.Contents
import CampusQuery.Proofs.Except

/-!
# Catalogs and their logs

The log of a history lists the changes that were made, the refused ones left out. It alone decides
what a catalog shows: under an id there is the table that the last change under that id has left
(`Log.table?`), and the datasets come in the order of these last changes (`Log.tables`).

* `holds_ofHistory`: a catalog holds what its log leaves, by `Holds.after` for one operation and
  induction on the history;
* `add_eq_error`, `remove_eq_error`: a refused change is refused for the first thing that is wrong
  with it (`RefusesAdd`, `RefusesRemove`);
* `follows_log`: what a catalog shows and how it answers to the next change, all told by its log.
-/

namespace CampusQuery

/-- A change that a catalog has made. -/
inductive Change
  | added (table : Table)
  | removed (id : String)

namespace Change

def id : Change → String
  | added table => table.id
  | removed id => id

/-- What a change leaves under its id. -/
def table? : Change → Option Table
  | added table => some table
  | removed _ => none

theorem filter_table? (change : Change) (id : String) :
    change.table?.toList.filter (·.id ≠ id) =
      if change.id = id then [] else change.table?.toList := by
  cases change with
  | added table => by_cases same : table.id = id <;> simp [table?, Change.id, same]
  | removed => simp [table?]

theorem find?_table? (change : Change) (id : String) :
    change.table?.toList.find? (·.id = id) =
      if change.id = id then change.table? else none := by
  cases change with
  | added table => by_cases same : table.id = id <;> simp [table?, Change.id, same]
  | removed => simp [table?]

end Change

/-- Changes in the order in which they were made. -/
abbrev Log := List Change

namespace Log

/-- What the last change under the id has left. -/
def table? (log : Log) (id : String) : Option Table :=
  (log.reverse.find? (·.id = id)).bind Change.table?

/-- What the last change under each id has left, in the order of these changes. -/
def tables : Log → List Table
  | [] => []
  | change :: later =>
    if later.any (·.id = change.id) then tables later
    else change.table?.toList ++ tables later

theorem table?_concat (log : Log) (change : Change) (id : String) :
    table? (log ++ [change]) id =
      if change.id = id then change.table? else table? log id := by
  by_cases same : change.id = id <;> simp [table?, same]

/-- A further change takes out what there was under its id, and comes last. -/
theorem tables_concat (log : Log) (change : Change) :
    tables (log ++ [change]) =
      (tables log).filter (·.id ≠ change.id) ++ change.table?.toList := by
  induction log with
  | nil => simp [tables]
  | cons head log ih =>
    rw [List.cons_append, tables, tables, List.any_append, ih]
    -- The first change has been overtaken before, is overtaken by the new one, or still counts.
    by_cases later : log.any (·.id = head.id)
    · simp [later]
    · by_cases same : change.id = head.id
      · simp only [later, same, List.any_cons, decide_true, Bool.true_or, Bool.or_true, if_true,
          Bool.false_eq_true, if_false, List.filter_append, head.filter_table?, List.nil_append]
      · simp only [later, same, List.any_cons, List.any_nil, decide_false, Bool.or_false,
          Bool.false_eq_true, if_false, List.filter_append, head.filter_table?, Ne.symm same,
          List.append_assoc]

/-- The two readings of a log agree. -/
theorem find?_tables (log : Log) (id : String) :
    (tables log).find? (·.id = id) = table? log id := by
  -- From the left, as a log grows: both sides have a step for a further change.
  induction log using List.reverseRecOn with
  | nil => rfl
  | append_singleton log change ih =>
    rw [tables_concat, table?_concat, List.find?_append, List.find?_filter,
      change.find?_table?]
    by_cases same : change.id = id
    · have none : (tables log).find? (fun _ => false) = none := List.find?_eq_none.mpr (by simp)
      simp [same, none]
    · have kept : ∀ table : Table,
          decide (decide (table.id ≠ change.id) = true ∧ decide (table.id = id) = true) =
            decide (table.id = id) := by
        intro table
        by_cases h : table.id = id <;> simp [h, Ne.symm same]
      simp only [kept, ih, same, if_false, Option.or_none]

end Log

namespace Catalog

/-! ## The log of a history -/

/-- A change, or nothing if it is refused. -/
def record {α : Type} (change : Change) : Except CatalogError α → Log
  | .ok _ => [change]
  | .error _ => []

/-- The changes that are made by adding tables one after another. -/
def loaded (catalog : Catalog) : List Table → Log
  | [] => []
  | table :: tables =>
    match catalog.add table with
    | (larger, .ok _) => .added table :: larger.loaded tables
    | (_, .error _) => []

/-- The changes that an operation makes. -/
def changes (catalog : Catalog) : Operation → Log
  | .add table => record (.added table) (catalog.add table).2
  | .load tables => catalog.loaded tables
  | .remove id => record (.removed id) (catalog.remove id).2
  | .query _ => []

/-- The changes that a history makes, starting from the catalog. -/
def log (catalog : Catalog) : List Operation → Log
  | [] => []
  | operation :: history => catalog.changes operation ++ (catalog.after operation).log history

/-- The catalog holds what the log leaves. -/
def Holds (catalog : Catalog) (log : Log) : Prop :=
  catalog.datasets = (Log.tables log).map Table.dataset

namespace Holds

variable {catalog : Catalog} {log : Log} (holds : catalog.Holds log)

theorem nil : empty.Holds [] := rfl

include holds

theorem append_nil : catalog.Holds (log ++ []) := (List.append_nil log).symm ▸ holds

theorem find?_eq (id : String) : catalog.find? id = (Log.table? log id).map Table.dataset := by
  rw [find?, holds, List.find?_map, ← Log.find?_tables]
  rfl

theorem mem_ids_iff {id : String} : id ∈ catalog.ids ↔ Log.table? log id ≠ none := by
  rw [← not_iff_not, not_ne_iff, ← find?_eq_none_iff, holds.find?_eq, Option.map_eq_none_iff]

theorem concat_added {table : Table} (fresh : table.id ∉ catalog.ids) :
    Holds ⟨catalog.datasets ++ [table.dataset]⟩ (log ++ [.added table]) := by
  have others : ∀ other ∈ Log.tables log, decide (other.id ≠ table.id) = true := by
    refine fun other mem => decide_eq_true fun same => fresh ?_
    refine List.mem_map.mpr ⟨other.dataset, ?_, same⟩
    rw [holds]
    exact List.mem_map_of_mem mem
  rw [Holds, Log.tables_concat, Change.id, List.filter_eq_self.mpr others, List.map_append, ← holds]
  rfl

theorem concat_removed (valid : catalog.Valid) (id : String) :
    Holds ⟨catalog.datasets.eraseP (·.id = id)⟩ (log ++ [.removed id]) := by
  have kept := eraseP_eq_filter valid.ids_nodup id
  rw [Holds, Log.tables_concat, Change.table?, Option.toList_none, List.append_nil]
  rw [holds, List.filter_map] at kept
  rw [holds]
  exact kept

theorem addAll (tables : List Table) :
    (catalog.addAll tables).1.Holds (log ++ catalog.loaded tables) := by
  induction tables generalizing catalog log with
  | nil => exact holds.append_nil
  | cons table tables ih =>
    rw [Catalog.addAll, loaded]
    rcases catalog.add_cases table with ⟨_, fresh, added⟩ | ⟨_, error, refused⟩
    · rw [added]
      have rest := ih (holds.concat_added fresh)
      rwa [List.append_assoc] at rest
    · rw [refused]
      exact holds.append_nil

/-- One operation changes the catalog as it changes the log. -/
theorem after (valid : catalog.Valid) (operation : Operation) :
    (catalog.after operation).Holds (log ++ catalog.changes operation) := by
  cases operation with
  | add table =>
    rw [Catalog.after, changes]
    rcases catalog.add_cases table with ⟨_, fresh, added⟩ | ⟨_, error, refused⟩
    · rw [added]
      exact holds.concat_added fresh
    · rw [refused]
      exact holds.append_nil
  | load tables => exact holds.addAll tables
  | remove id =>
    rw [Catalog.after, changes]
    rcases catalog.remove_cases id with ⟨_, _, done⟩ | ⟨_, error, refused⟩
    · rw [done]
      exact holds.concat_removed valid id
    · rw [refused]
      exact holds.append_nil
  | query => exact holds.append_nil

theorem foldl_after (valid : catalog.Valid) (history : List Operation) :
    (history.foldl Catalog.after catalog).Holds (log ++ catalog.log history) := by
  -- The rest of the history starts from another catalog and a longer log.
  induction history generalizing catalog log with
  | nil => exact holds.append_nil
  | cons operation history ih =>
    rw [List.foldl_cons, Catalog.log, ← List.append_assoc]
    exact ih (holds.after valid operation) (valid.after operation)

end Holds

/-- A catalog holds what its log leaves. -/
theorem holds_ofHistory (history : List Operation) :
    (ofHistory history).Holds (empty.log history) :=
  Holds.nil.foldl_after valid_empty history

theorem invalidRow?_cons (kind : Kind) (row : Row) (rows : List Row) :
    invalidRow? kind (row :: rows) =
      match kind.rowDefect? row with
      | some defect => some (0, defect)
      | none => (invalidRow? kind rows).map fun found => (found.1 + 1, found.2) := by
  rw [invalidRow?, List.zipIdx_cons, List.findSome?_cons, List.zipIdx_succ, List.findSome?_map]
  cases found : kind.rowDefect? row with
  | some defect => simp [found]
  | none =>
    simp only [found, Option.map_none, invalidRow?, List.map_findSome?]
    congr 1
    funext numbered
    simp only [Function.comp_apply, Option.map_map]
    rfl

/-- The row that is reported is the first one that the kind does not admit. -/
theorem invalidRow?_eq_some {kind : Kind} {rows : List Row} {index : Nat} {defect : RowDefect} :
    invalidRow? kind rows = some (index, defect) ↔
      (∀ row ∈ rows.take index, kind.Admits row) ∧
        ∃ row, rows[index]? = some row ∧ kind.rowDefect? row = some defect := by
  induction rows generalizing index with
  | nil => simp [invalidRow?]
  | cons row rows ih =>
    rw [invalidRow?_cons]
    cases index with
    | zero =>
      cases found : kind.rowDefect? row with
      | some other => simp [found]
      | none => simp [found]
    | succ index =>
      cases found : kind.rowDefect? row with
      | some other =>
        have refused : ¬kind.Admits row := by
          rw [← Kind.rowDefect?_eq_none, found]
          exact Option.some_ne_none other
        simp [refused]
      | none => simp [ih, Kind.rowDefect?_eq_none.mp found]

/-- Why a table is not added to a catalog with the given log: the first thing that is wrong. -/
inductive RefusesAdd (log : Log) (table : Table) : CatalogError → Prop
  | invalidId (improper : ¬ProperId table.id) : RefusesAdd log table (.invalidId table.id)
  | noRows (proper : ProperId table.id) (empty : table.rows = []) :
    RefusesAdd log table (.noRows table.id)
  | invalidRow {index : Nat} {row : Row} {defect : RowDefect} (proper : ProperId table.id)
    (before : ∀ earlier ∈ table.rows.take index, table.kind.Conforms earlier)
    (found : table.rows[index]? = some row) (nonconforming : ¬table.kind.Conforms row)
    (reason : table.kind.rowDefect? row = some defect) :
    RefusesAdd log table (.invalidRow table.id index defect)
  | duplicate (proper : ProperId table.id) (nonempty : table.rows ≠ [])
    (conforming : ∀ row ∈ table.rows, table.kind.Conforms row)
    (present : Log.table? log table.id ≠ none) : RefusesAdd log table (.duplicate table.id)

/-- Why a dataset is not removed from a catalog with the given log. -/
inductive RefusesRemove (log : Log) (id : String) : CatalogError → Prop
  | invalidId (improper : ¬ProperId id) : RefusesRemove log id (.invalidId id)
  | notFound (proper : ProperId id) (absent : Log.table? log id = none) :
    RefusesRemove log id (.notFound id)

theorem exists_refusesAdd {log : Log} {table : Table}
    (unfit : ¬(table.Valid ∧ Log.table? log table.id = none)) :
    ∃ error, RefusesAdd log table error := by
  by_cases proper : ProperId table.id
  · by_cases empty : table.rows = []
    · exact ⟨_, .noRows proper empty⟩
    · cases reported : invalidRow? table.kind table.rows with
      | some found =>
        obtain ⟨before, row, here, reason⟩ := invalidRow?_eq_some.mp reported
        have nonconforming : ¬table.kind.Conforms row := by
          rw [Kind.conforms_iff, ← Kind.rowDefect?_eq_none, reason]
          nofun
        simp only [← Kind.conforms_iff] at before
        exact ⟨_, .invalidRow proper before here nonconforming reason⟩
      | none =>
        have conforming := invalidRow?_eq_none.mp reported
        simp only [← Kind.conforms_iff] at conforming
        have valid : table.Valid := Table.valid_iff.mpr ⟨proper, empty, conforming⟩
        exact ⟨_, .duplicate proper empty conforming fun absent => unfit ⟨valid, absent⟩⟩
  · exact ⟨_, .invalidId proper⟩

theorem exists_refusesRemove {log : Log} {id : String}
    (unfit : ¬(ProperId id ∧ Log.table? log id ≠ none)) :
    ∃ error, RefusesRemove log id error := by
  by_cases proper : ProperId id
  · exact ⟨_, .notFound proper (not_not.mp fun present => unfit ⟨proper, present⟩)⟩
  · exact ⟨_, .invalidId proper⟩

section Present

variable {catalog : Catalog} {log : Log} (holds : catalog.Holds log)

include holds

theorem add_eq_ok_iff {table : Table} :
    (∃ listed, (catalog.add table).2 = .ok listed) ↔
      table.Valid ∧ Log.table? log table.id = none := by
  rw [← not_ne_iff, ← holds.mem_ids_iff]
  rcases catalog.add_cases table with ⟨valid, fresh, added⟩ | ⟨unfit, error, refused⟩
  · rw [added]
    exact iff_of_true ⟨_, rfl⟩ ⟨valid, fresh⟩
  · rw [refused]
    exact iff_of_false nofun unfit

theorem remove_eq_ok_iff {id : String} :
    (∃ removed, (catalog.remove id).2 = .ok removed) ↔
      ProperId id ∧ Log.table? log id ≠ none := by
  rw [← isValidId_iff, ← holds.mem_ids_iff]
  rcases catalog.remove_cases id with ⟨valid, present, done⟩ | ⟨unfit, error, refused⟩
  · rw [done]
    exact iff_of_true ⟨_, rfl⟩ ⟨valid, present⟩
  · rw [refused]
    exact iff_of_false nofun unfit

theorem RefusesAdd.add_eq {table : Table} {error : CatalogError}
    (h : RefusesAdd log table error) : catalog.add table = (catalog, .error error) := by
  cases h with
  | invalidId improper => simp [add, isValidId_eq_false improper]
  | noRows proper empty => simp [add, isValidId_iff.mpr proper, empty]
  | @invalidRow index row defect proper before found _ reason =>
    simp only [Kind.conforms_iff] at before
    have reported : invalidRow? table.kind table.rows = some (index, defect) :=
      invalidRow?_eq_some.mpr ⟨before, row, found, reason⟩
    have nonempty : table.rows ≠ [] := List.ne_nil_of_mem (List.mem_of_getElem? found)
    simp [add, isValidId_iff.mpr proper, nonempty, reported]
  | duplicate proper nonempty conforming present =>
    simp only [Kind.conforms_iff] at conforming
    have admitted := invalidRow?_eq_none.mpr conforming
    simp [add, isValidId_iff.mpr proper, nonempty, admitted, holds.mem_ids_iff.mpr present]

theorem RefusesRemove.remove_eq {id : String} {error : CatalogError}
    (h : RefusesRemove log id error) : catalog.remove id = (catalog, .error error) := by
  cases h with
  | invalidId improper => simp [remove, isValidId_eq_false improper]
  | notFound proper absent =>
    have missing : id ∉ catalog.ids := fun present => holds.mem_ids_iff.mp present absent
    simp [remove, isValidId_iff.mpr proper, missing]

theorem add_eq_error {table : Table} {error : CatalogError} :
    (catalog.add table).2 = .error error ↔ RefusesAdd log table error :=
  eq_error_iff (fun _ h => congrArg Prod.snd (h.add_eq holds))
    fun refused => exists_refusesAdd (mt (add_eq_ok_iff holds).mpr refused)

theorem remove_eq_error {id : String} {error : CatalogError} :
    (catalog.remove id).2 = .error error ↔ RefusesRemove log id error :=
  eq_error_iff (fun _ h => congrArg Prod.snd (h.remove_eq holds))
    fun refused => exists_refusesRemove (mt (remove_eq_ok_iff holds).mpr refused)

end Present

/-! ## What the log tells -/

/-- What a catalog shows and how it answers to a change, by its log. -/
structure Follows (catalog : Catalog) (log : Log) : Prop where
  rows? : ∀ id, catalog.rows? id = (Log.table? log id).map Table.rows
  descriptors : catalog.descriptors =
    (Log.tables log).map fun table => ⟨table.id, table.kind, table.rows.length⟩
  add_ok : ∀ table, (∃ listed, (catalog.add table).2 = .ok listed) ↔
    ProperId table.id ∧ table.rows ≠ [] ∧
      (∀ row ∈ table.rows, table.kind.Conforms row) ∧ Log.table? log table.id = none
  add_ids : ∀ table listed, (catalog.add table).2 = .ok listed →
    listed = (Log.tables (log ++ [.added table])).map Table.id ∧
      listed = (catalog.after (.add table)).descriptors.map Descriptor.id
  add_error : ∀ table error, (catalog.add table).2 = .error error ↔ RefusesAdd log table error
  add_unchanged : ∀ table error, (catalog.add table).2 = .error error →
    catalog.after (.add table) = catalog
  remove_ok : ∀ id, (∃ removed, (catalog.remove id).2 = .ok removed) ↔
    ProperId id ∧ Log.table? log id ≠ none
  remove_id : ∀ id removed, (catalog.remove id).2 = .ok removed → removed = id
  remove_error : ∀ id error, (catalog.remove id).2 = .error error ↔ RefusesRemove log id error
  remove_unchanged : ∀ id error, (catalog.remove id).2 = .error error →
    catalog.after (.remove id) = catalog

/-- Whatever the history, what the catalog shows and how it answers follows its log. -/
theorem follows_log (history : List Operation) :
    (ofHistory history).Follows (empty.log history) := by
  have holds := holds_ofHistory history
  exact
    { rows? := fun id => by
        rw [rows?, holds.find?_eq, Option.map_map]
        rfl
      descriptors := by
        rw [descriptors, holds, List.map_map]
        rfl
      add_ok := fun table => by rw [add_eq_ok_iff holds, Table.valid_iff, and_assoc, and_assoc]
      add_ids := fun table listed ok => by
        obtain ⟨_, fresh, same, rfl⟩ := add_eq_ok.mp (Prod.ext rfl ok)
        have added := holds.concat_added fresh
        rw [← same] at added
        constructor
        · rw [ids, added, List.map_map]
          rfl
        · rw [descriptors, List.map_map]
          rfl
      add_error := fun table error => add_eq_error holds
      add_unchanged := fun table error refused => eq_of_add_error (Prod.ext rfl refused)
      remove_ok := fun id => remove_eq_ok_iff holds
      remove_id := fun id removed ok => (remove_eq_ok.mp (Prod.ext rfl ok)).2.2.2
      remove_error := fun id error => remove_eq_error holds
      remove_unchanged := fun id error refused => eq_of_remove_error (Prod.ext rfl refused) }

end Catalog

end CampusQuery
