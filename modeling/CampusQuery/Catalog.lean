import CampusQuery.Execution
import CampusQuery.Text.Blank

/-!
# The catalog

A catalog holds datasets in the order in which they were added. A table enters it only with a
proper id that no other has, and with rows that have exactly the fields of its kind; so queries
need not check rows again.
-/

namespace CampusQuery

/-- Rows of a kind under an id, as they come to a catalog. -/
structure Table where
  id : String
  kind : Kind
  rows : List Row

/-- What a catalog holds of a table. -/
structure Dataset where
  descriptor : Descriptor
  rows : List Row

def Dataset.id (dataset : Dataset) : String := dataset.descriptor.id

def Dataset.kind (dataset : Dataset) : Kind := dataset.descriptor.kind

def Table.descriptor (table : Table) : Descriptor := ⟨table.id, table.kind, table.rows.length⟩

def Table.dataset (table : Table) : Dataset := ⟨table.descriptor, table.rows⟩

/-- How the texts of errors are worded where this is left open. -/
structure Wording where
  /-- Which name is given if there are several. -/
  pick : List String → String
  pick_mem {names : List String} : names ≠ [] → pick names ∈ names
  /-- What is said of a text that is not JSON. -/
  complaint : String → String

/-- What is wrong with a row. -/
inductive RowDefect
  | missingField (name : String)
  /-- A field holds a cell of the other type. -/
  | wrongType (name typeName : String)
  /-- There are fields that the kind does not have. The text names any one of them. -/
  | unexpectedFields (names : List String) (kind : Kind)
  deriving DecidableEq

def RowDefect.message (wording : Wording) : RowDefect → String
  | missingField name => "missing field '" ++ name ++ "'"
  | wrongType name typeName => "field '" ++ name ++ "' holds a " ++ typeName
  | unexpectedFields names kind =>
    "unexpected field '" ++ wording.pick names ++ "' for " ++ kind.name

/-- Why a change of the catalog is refused. -/
inductive CatalogError
  | invalidId (id : String)
  | duplicate (id : String)
  | notFound (id : String)
  | noRows (id : String)
  | invalidRow (id : String) (index : Nat) (defect : RowDefect)
  deriving DecidableEq

def CatalogError.message (wording : Wording) : CatalogError → String
  | invalidId id => "Invalid dataset id: '" ++ id ++ "'"
  | duplicate id => "Dataset '" ++ id ++ "' has already been added"
  | notFound id => "Dataset '" ++ id ++ "' has not been added"
  | noRows id => "Dataset '" ++ id ++ "' contains no rows"
  | invalidRow id index defect =>
    "Row " ++ toString index ++ " of dataset '" ++ id ++ "': " ++ defect.message wording

/-- Whether a field of the given type may hold the cell. -/
def FieldType.admits : FieldType → Cell → Bool
  | numeric, cell => cell.isNumber
  | text, cell => !cell.isNumber

/-- What is wrong with a field of a row. -/
def Field.defect? (row : Row) (field : Field) : Option RowDefect :=
  match row[field.name]? with
  | none => some (.missingField field.name)
  | some cell =>
    if field.type.admits cell then none else some (.wrongType field.name cell.typeName)

/-- What is wrong with a row that has other fields than those of the kind: all of these fields. -/
def Kind.unexpected? (kind : Kind) (row : Row) : Option RowDefect :=
  match row.keys.filter fun name => (kind.field? name).isNone with
  | [] => none
  | names => some (.unexpectedFields names kind)

/-- The first thing that is wrong with a row of the kind: the fields of the kind in their order,
then all other fields. -/
def Kind.rowDefect? (kind : Kind) (row : Row) : Option RowDefect :=
  (kind.fields.findSome? (·.defect? row)).or (kind.unexpected? row)

/-- An id has a character that is not blank, and no underscore, which ends it in references. -/
def isValidId (id : String) : Bool := !Text.isBlank id && '_' ∉ id.toList

structure Catalog where
  datasets : List Dataset

namespace Catalog

def empty : Catalog := ⟨[]⟩

def ids (catalog : Catalog) : List String := catalog.datasets.map (·.id)

def descriptors (catalog : Catalog) : List Descriptor := catalog.datasets.map (·.descriptor)

def find? (catalog : Catalog) (id : String) : Option Dataset :=
  catalog.datasets.find? (·.id = id)

def rows? (catalog : Catalog) (id : String) : Option (List Row) := (catalog.find? id).map (·.rows)

/-- The first row that the kind does not admit, with its index. -/
def invalidRow? (kind : Kind) (rows : List Row) : Option (Nat × RowDefect) :=
  rows.zipIdx.findSome? fun (row, index) => (kind.rowDefect? row).map (index, ·)

/-- Adds a table at the end; the outcome is the ids of all datasets. -/
def add (catalog : Catalog) (table : Table) : Catalog × Except CatalogError (List String) :=
  if !isValidId table.id then (catalog, .error (.invalidId table.id))
  else if table.rows.isEmpty then (catalog, .error (.noRows table.id))
  else
    match invalidRow? table.kind table.rows with
    | some (index, defect) => (catalog, .error (.invalidRow table.id index defect))
    | none =>
      if table.id ∈ catalog.ids then (catalog, .error (.duplicate table.id))
      else
        let larger : Catalog := ⟨catalog.datasets ++ [table.dataset]⟩
        (larger, .ok larger.ids)

/-- Removes the dataset with the given id; the outcome is this id. -/
def remove (catalog : Catalog) (id : String) : Catalog × Except CatalogError String :=
  if !isValidId id then (catalog, .error (.invalidId id))
  else if id ∈ catalog.ids then (⟨catalog.datasets.eraseP (·.id = id)⟩, .ok id)
  else (catalog, .error (.notFound id))

/-- Adds tables one after another up to the first one that is refused; those before it stay. -/
def addAll (catalog : Catalog) : List Table → Catalog × Option CatalogError
  | [] => (catalog, none)
  | table :: tables =>
    match catalog.add table with
    | (larger, .ok _) => larger.addAll tables
    | (same, .error error) => (same, some error)

def toSource (catalog : Catalog) : Source := ⟨catalog.descriptors, catalog.rows?⟩

/-- The answer to a query document. -/
def answer (catalog : Catalog) (document : Json) : Except QueryError (List ResultRow) :=
  catalog.toSource.answer document

end Catalog

end CampusQuery
