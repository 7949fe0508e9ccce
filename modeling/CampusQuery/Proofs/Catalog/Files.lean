import CampusQuery.Proofs.Catalog.Contents
import CampusQuery.Proofs.Json.Rows

/-!
# Which files are loaded

A document is loaded if tables are read from it and all of them enter an empty catalog
(`DatasetFile.Loads`). `IsDatasetFile` says which documents that are, and `HoldsDataset` what a
dataset of the catalog has to do with its part of the document. Reading looks at the shape of a
document and the catalog at the rows; `loads_exactly` says that together they accept the dataset
files and nothing else, and that no cell of them is lost. An object is taken to have each of its
names once, as in every document that is read (`Json.distinct_of_read?`).
-/

namespace CampusQuery

/-- The word names the kind, in upper or lower case. -/
def Kind.IsNamed : Kind → String → Prop
  | sections, word => word.toLower = "sections" ∨ word.toLower = "courses"
  | rooms, word => word.toLower = "rooms"

/-- An object whose names are those of the fields of the kind, with a number in each numeric field
and a string in each text field. -/
def Kind.IsRow (kind : Kind) (item : Json) : Prop :=
  ∃ members, item = .object members ∧
    (∀ name, name ∈ members.map Prod.fst ↔ name ∈ kind.fields.map Field.name) ∧
    ∀ field ∈ kind.fields, ∃ value,
      Json.fieldOf? field.name members = some value ∧ field.type.Fits value

/-- A dataset with the given id: an object with the name of a kind and rows of it, not none. -/
structure IsDataset (document : Json) (id : String) : Prop where
  id_eq : document.get? "id" = some (.string id)
  id_proper : ProperId id
  content : ∃ word kind items, document.get? "kind" = some (.string word) ∧
    Kind.IsNamed kind word ∧ document.get? "rows" = some (.array items) ∧ items ≠ [] ∧
    ∀ item ∈ items, kind.IsRow item

namespace DatasetFile

/-- The documents of the datasets of a file. -/
def parts : Json → List Json
  | .array items => items
  | document => [document]

/-- A dataset or an array of them, no two of which have the same id. -/
def IsDatasetFile (document : Json) : Prop :=
  ∃ ids : List String, List.Forall₂ IsDataset (parts document) ids ∧ ids.Nodup

/-- The row has the cells that the members of the object stand for, and no others. -/
def HoldsRow (item : Json) (row : Row) : Prop :=
  ∀ name, Option.Rel Json.HasCell (item.get? name) row[name]?

/-- The dataset has the id and the kind of the document, and its rows in their order. -/
structure HoldsDataset (document : Json) (dataset : Dataset) : Prop where
  id : document.get? "id" = some (.string dataset.id)
  kind : ∃ word, document.get? "kind" = some (.string word) ∧ dataset.kind.IsNamed word
  rows : ∃ items, document.get? "rows" = some (.array items) ∧
    List.Forall₂ HoldsRow items dataset.rows ∧ dataset.descriptor.rowCount = items.length

/-- The tables of the document are read and added to an empty catalog, one after another. -/
def Loads (document : Json) (catalog : Catalog) : Prop :=
  ∃ tables, read document = .ok tables ∧ Catalog.empty.addAll tables = (catalog, none)

section Row

variable {kind : Kind} {members : List (String × Json)} {row : Row}
  (same : ∀ name, Option.Rel Json.HasCell (Json.fieldOf? name members) row[name]?)

include same

theorem mem_iff_mem_names (name : String) : name ∈ row ↔ name ∈ members.map Prod.fst := by
  rw [Std.ExtTreeMap.mem_iff_isSome_getElem?, ← Json.isSome_fieldOf?]
  have rel := same name
  generalize row[name]? = cell, Json.fieldOf? name members = value at rel
  cases rel <;> simp

theorem exists_admits_iff (field : Field) :
    (∃ cell, row[field.name]? = some cell ∧ field.type.admits cell = true) ↔
      ∃ value, Json.fieldOf? field.name members = some value ∧ field.type.Fits value := by
  have rel := same field.name
  generalize row[field.name]? = cell, Json.fieldOf? field.name members = value at rel
  cases rel with
  | none => simp
  | some has => simp [has.fits_iff]

/-- What is read from an object is a row of the kind if the object is one. -/
theorem admits_iff_isRow : kind.Admits row ↔ kind.IsRow (.object members) := by
  constructor
  · intro admits
    refine ⟨members, rfl, fun name => ?_, fun field mem =>
      (exists_admits_iff same field).mp (admits.cell field mem)⟩
    rw [← mem_iff_mem_names same]
    exact (Kind.conforms_iff.mpr admits).fields name
  · rintro ⟨_, ⟨⟩, names, types⟩
    refine ⟨fun field mem => (exists_admits_iff same field).mpr (types field mem),
      fun name mem => ?_⟩
    exact List.mem_map.mp ((names name).mp ((mem_iff_mem_names same name).mp mem))

end Row

/-- The objects of the kind are read, and what is read from them is a row of the kind. -/
theorem exists_readRow_iff {kind : Kind} {item : Json} (distinct : item.Distinct) :
    (∃ row, readRow item = .ok row ∧ kind.Admits row) ↔ kind.IsRow item := by
  constructor
  · rintro ⟨row, read, admits⟩
    obtain ⟨members, rfl, same⟩ := (readRow_eq_ok distinct).mp read
    exact (admits_iff_isRow same).mp admits
  · intro is
    obtain ⟨members, rfl, names, types⟩ := id is
    have readable : ∀ member ∈ members, ∃ cell, member.2.HasCell cell := by
      intro member mem
      obtain ⟨field, hf, named⟩ := List.mem_map.mp ((names _).mp (List.mem_map_of_mem mem))
      obtain ⟨value, found, fits⟩ := types field hf
      have own := (Json.fieldOf?_eq_some (Json.distinct_object.mp distinct).1).mpr mem
      rw [named, own, Option.some_inj] at found
      exact found ▸ fits.exists_hasCell
    obtain ⟨row, read⟩ := exists_readRow readable
    obtain ⟨_, ⟨⟩, same⟩ := (readRow_eq_ok distinct).mp read
    exact ⟨row, read, (admits_iff_isRow same).mpr is⟩

theorem holdsRow_of_readRow {item : Json} (distinct : item.Distinct) {row : Row}
    (h : readRow item = .ok row) : HoldsRow item row := by
  obtain ⟨members, rfl, same⟩ := (readRow_eq_ok distinct).mp h
  exact same

theorem ofName?_eq_some {word : String} {kind : Kind} :
    Kind.ofName? word = some kind ↔ kind.IsNamed word := by
  unfold Kind.ofName?
  split <;> cases kind <;> simp_all [Kind.IsNamed]

theorem string?_eq_some {document : Option Json} {s : String} :
    document.bind Json.string? = some s ↔ document = some (.string s) := by
  rcases document with - | _ | _ | _ | _ | _ | _ <;> simp [Json.string?]

theorem array?_eq_some {document : Option Json} {items : List Json} :
    document.bind Json.array? = some items ↔ document = some (.array items) := by
  rcases document with - | _ | _ | _ | _ | _ | _ <;> simp [Json.array?]

theorem readTable_eq_ok {document : Json} {table : Table} :
    readTable document = .ok table ↔
      ∃ word items, document.get? "id" = some (.string table.id) ∧
        document.get? "kind" = some (.string word) ∧ table.kind.IsNamed word ∧
        document.get? "rows" = some (.array items) ∧
        List.Forall₂ (fun item row => readRow item = .ok row) items table.rows := by
  simp only [readTable, ok_bind, error_bind, ← string?_eq_some, ← array?_eq_some,
    ← ofName?_eq_some, ← mapM_eq_ok]
  constructor
  · intro h
    split at h
    · rename_i id hid
      split at h
      · rename_i word hw
        split at h
        · rename_i kind hk
          split at h
          · rename_i items hi
            obtain ⟨rows, hr, rfl⟩ := map_eq_ok.mp h
            exact ⟨word, items, hid, hw, hk, hi, hr⟩
          · cases h
        · cases h
      · cases h
    · cases h
  · rintro ⟨word, items, hid, hw, hk, hi, hr⟩
    simp only [hid, hw, hk, hi, hr]
    rfl

theorem distinct_of_mem_rows {document : Json} (distinct : document.Distinct) {items : List Json}
    (rows : document.get? "rows" = some (.array items)) {item : Json} (mem : item ∈ items) :
    item.Distinct :=
  Json.distinct_array.mp (distinct.get? rows) item mem

/-- The datasets with the given id are read, and what is read from them may enter a catalog. -/
theorem exists_readTable_iff {document : Json} (distinct : document.Distinct) {id : String} :
    (∃ table, (readTable document = .ok table ∧ table.Valid) ∧ table.id = id) ↔
      IsDataset document id := by
  constructor
  · rintro ⟨table, ⟨read, valid⟩, rfl⟩
    obtain ⟨word, items, hid, hw, named, hi, each⟩ := readTable_eq_ok.mp read
    refine ⟨hid, isValidId_iff.mp valid.id, word, table.kind, items, hw, named, hi, ?_, ?_⟩
    · exact ne_nil_of_forall₂ each.flip valid.rows_ne_nil
    · intro item mem
      obtain ⟨row, hr, ok⟩ := exists_of_mem_right each.flip mem
      exact (exists_readRow_iff (distinct_of_mem_rows distinct hi mem)).mp
        ⟨row, ok, valid.admits row hr⟩
  · rintro ⟨hid, proper, word, kind, items, hw, named, hi, nonempty, each⟩
    obtain ⟨rows, read⟩ := exists_forall₂.mpr fun item mem =>
      (exists_readRow_iff (distinct_of_mem_rows distinct hi mem)).mpr (each item mem)
    obtain ⟨read, admits⟩ := forall₂_and_right.mp read
    exact ⟨⟨id, kind, rows⟩, ⟨readTable_eq_ok.mpr ⟨word, items, hid, hw, named, hi, read⟩,
      isValidId_iff.mpr proper, ne_nil_of_forall₂ read nonempty, admits⟩, rfl⟩

theorem holdsDataset_of_readTable {document : Json} (distinct : document.Distinct) {table : Table}
    (h : readTable document = .ok table) : HoldsDataset document table.dataset := by
  obtain ⟨word, items, hid, hw, named, hi, each⟩ := readTable_eq_ok.mp h
  refine ⟨hid, ⟨word, hw, named⟩, items, hi, ?_, each.length_eq.symm⟩
  exact forall₂_imp_of_mem each fun item mem row read =>
    holdsRow_of_readRow (distinct_of_mem_rows distinct hi mem) read

/-! ## Files -/

theorem read_eq_mapM (document : Json) : read document = (parts document).mapM readTable := by
  have one (part : Json) : (readTable part).map ([·]) = [part].mapM readTable := by
    rw [List.mapM_cons, List.mapM_nil]
    cases readTable part <;> rfl
  cases document with
  | array items => rfl
  | null => exact one .null
  | bool b => exact one (.bool b)
  | number n => exact one (.number n)
  | string s => exact one (.string s)
  | object members => exact one (.object members)

theorem distinct_of_mem_parts {document : Json} (distinct : document.Distinct) {part : Json}
    (mem : part ∈ parts document) : part.Distinct := by
  cases document with
  | array items => exact Json.distinct_array.mp distinct part mem
  | _ => exact List.mem_singleton.mp mem ▸ distinct

theorem loads_iff {document : Json} {catalog : Catalog} :
    Loads document catalog ↔ ∃ tables,
      List.Forall₂ (fun part table => readTable part = .ok table ∧ table.Valid)
        (parts document) tables ∧ (tables.map Table.id).Nodup ∧
      catalog = ⟨tables.map Table.dataset⟩ := by
  simp only [Loads, read_eq_mapM, mapM_eq_ok, Catalog.addAll_eq_none, forall₂_and_right]
  constructor
  · rintro ⟨tables, each, valid, _, nodup, rfl⟩
    exact ⟨tables, ⟨each, valid⟩, nodup, rfl⟩
  · rintro ⟨tables, ⟨each, valid⟩, nodup, rfl⟩
    exact ⟨tables, each, valid, fun _ _ => List.not_mem_nil, nodup, rfl⟩

theorem exists_loads_iff {document : Json} (distinct : document.Distinct) :
    (∃ catalog, Loads document catalog) ↔ IsDatasetFile document := by
  have part (item : Json) (mem : item ∈ parts document) (id : String) :=
    @exists_readTable_iff item (distinct_of_mem_parts distinct mem) id
  have accepted (ids : List String) : List.Forall₂ IsDataset (parts document) ids ↔
      ∃ tables, List.Forall₂ (fun part table => readTable part = .ok table ∧ table.Valid)
        (parts document) tables ∧ tables.map Table.id = ids := by
    rw [exists_map_forall₂]
    exact ⟨fun is => forall₂_imp_of_mem is fun item mem id => (part item mem id).mpr,
      fun read => forall₂_imp_of_mem read fun item mem id => (part item mem id).mp⟩
  constructor
  · rintro ⟨catalog, loads⟩
    obtain ⟨tables, read, nodup, _⟩ := loads_iff.mp loads
    exact ⟨_, (accepted _).mpr ⟨tables, read, rfl⟩, nodup⟩
  · rintro ⟨_, is, nodup⟩
    obtain ⟨tables, read, rfl⟩ := (accepted _).mp is
    exact ⟨_, loads_iff.mpr ⟨tables, read, nodup, rfl⟩⟩

theorem Loads.holds {document : Json} (distinct : document.Distinct) {catalog : Catalog}
    (loads : Loads document catalog) :
    List.Forall₂ HoldsDataset (parts document) catalog.datasets := by
  obtain ⟨tables, read, _, rfl⟩ := loads_iff.mp loads
  rw [List.forall₂_map_right_iff]
  exact forall₂_imp_of_mem read fun _ mem _ read =>
    holdsDataset_of_readTable (distinct_of_mem_parts distinct mem) read.1

/-- Documents that are read from a text have each name once, so among them exactly the dataset files
are loaded. -/
theorem exists_loads_of_read? {text : String} {document : Json}
    (read : Json.read? text = some document) :
    (∃ catalog, Loads document catalog) ↔ IsDatasetFile document :=
  exists_loads_iff (Json.distinct_of_read? read)

/-- Exactly the dataset files are loaded, and what is loaded holds what they say. Rows without
infinities and NaNs are read back from what is written of them. -/
theorem loads_exactly {document : Json} (distinct : document.Distinct) :
    ((∃ catalog, Loads document catalog) ↔ IsDatasetFile document) ∧
      (∀ catalog, Loads document catalog →
        List.Forall₂ HoldsDataset (parts document) catalog.datasets) ∧
      ∀ row : Row,
        (∀ (name : String) (x : Binary64), row[name]? = some (.float x) → x.isFinite = true) →
        ∀ cells : List (String × Cell), cells.Perm row.toList →
          readRow (.object (cells.map fun (name, cell) => (name, .ofCell cell))) = .ok row :=
  ⟨exists_loads_iff distinct, fun _ loads => loads.holds distinct,
    fun _ finite _ perm => readRow_write finite perm⟩

/-! ## A file of two datasets -/

def sectionItem : Json :=
  .object
    [("year", .number (.integer (2 ^ 63))), ("audit", .number (.integer (-(2 ^ 63)))),
      ("fail", .number (.float (.signedZero true))), ("pass", .number (.integer 90)),
      ("avg", .number (.integer 80)), ("uuid", .string ""), ("title", .string "intro"),
      ("instructor", .string "holmes"), ("id", .string "310"), ("dept", .string "cpsc")]

def roomItem : Json :=
  .object
    [("fullname", .string "Main Hall"), ("shortname", .string "MAIN"), ("number", .string "1"),
      ("name", .string "MAIN_1"), ("address", .string ""), ("type", .string "tiered"),
      ("furniture", .string "fixed"), ("href", .string ""), ("lat", .number (.integer 49)),
      ("lon", .number (.integer (-123))), ("seats", .number (.integer 60))]

/-- Two datasets, with the names of their kinds in other letters and a member that is ignored. -/
def campus : Json :=
  .array
    [.object [("comment", .null), ("id", .string "new"), ("kind", .string "Courses"),
        ("rows", .array [sectionItem, sectionItem])],
      .object [("rows", .array [roomItem]), ("kind", .string "ROOMS"), ("id", .string " hall ")]]

theorem distinct_campus : campus.Distinct := by
  have comment : Json.Distinct .null := .null
  have number (n : Json.Number) : Json.Distinct (.number n) := .number n
  have string (s : String) : Json.Distinct (.string s) := .string s
  simp [campus, sectionItem, roomItem, Json.distinct_array, Json.distinct_object, comment, number,
    string]

theorem isRow_sectionItem : Kind.sections.IsRow sectionItem :=
  ⟨_, rfl, fun _ => List.Perm.mem_iff (by decide), by
    simp [Kind.fields, FieldType.Fits, Json.fieldOf?]⟩

theorem isRow_roomItem : Kind.rooms.IsRow roomItem :=
  ⟨_, rfl, fun _ => Iff.rfl, by simp [Kind.fields, FieldType.Fits, Json.fieldOf?]⟩

theorem isDatasetFile_campus : IsDatasetFile campus := by
  refine ⟨["new", " hall "], .cons ?sections (.cons ?rooms .nil), by decide⟩
  case sections =>
    refine ⟨rfl, ⟨⟨'n', by decide, by decide⟩, by decide⟩, "Courses", .sections, _, rfl,
      .inr (by cbv), rfl, List.cons_ne_nil _ _, ?_⟩
    simp [isRow_sectionItem]
  case rooms =>
    refine ⟨rfl, ⟨⟨'h', by decide, by decide⟩, by decide⟩, "ROOMS", .rooms, _, rfl, by cbv, rfl,
      List.cons_ne_nil _ _, ?_⟩
    simp [isRow_roomItem]

/-- A row with a negative zero, the least integer and a text that needs escapes. -/
def boundaryRow : Row :=
  let cells : List (String × Cell) :=
    [("avg", .float (.signedZero true)), ("year", .integer Int64.minValue),
      ("dept", .text "\"cpsc\"")]
  .ofList cells

theorem finite_boundaryRow (name : String) (x : Binary64)
    (found : boundaryRow[name]? = some (.float x)) : x.isFinite = true := by
  have mem := (Row.getElem?_ofList (by decide)).mp found
  simp only [List.mem_cons, Prod.mk.injEq, reduceCtorEq, and_false, List.not_mem_nil, or_false,
    Cell.float.injEq] at mem
  rw [mem.2]
  decide

theorem loads_exactly_campus :
    campus.Distinct ∧
      (∃ catalog, Loads campus catalog ∧
        List.Forall₂ HoldsDataset (parts campus) catalog.datasets) ∧
      readRow (.object (boundaryRow.toList.reverse.map fun (name, cell) =>
        (name, .ofCell cell))) = .ok boundaryRow := by
  obtain ⟨accepted, holds, written⟩ := loads_exactly distinct_campus
  obtain ⟨catalog, loads⟩ := accepted.mpr isDatasetFile_campus
  exact ⟨distinct_campus, ⟨catalog, loads, holds catalog loads⟩,
    written boundaryRow finite_boundaryRow _ (List.reverse_perm _)⟩

end DatasetFile

end CampusQuery
