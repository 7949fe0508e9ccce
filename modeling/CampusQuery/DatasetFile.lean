import CampusQuery.Catalog

/-!
# Dataset files

A dataset file holds one table or an array of them. A table is an object with an `id`, a `kind`
and an array `rows` of objects; other members are ignored. Numbers and strings become cells: an
integer cell if the number is whole and in range, a binary64 number otherwise.
-/

namespace CampusQuery

/-- Why a document is no dataset file. -/
inductive FileDefect
  | rowNotObject
  /-- A field holds neither a number nor a string. -/
  | notCell (field : String)
  | missingId
  | missingKind (id : String)
  | unknownKind (id kind : String)
  | missingRows (id : String)
  deriving DecidableEq

def FileDefect.message : FileDefect → String
  | rowNotObject => "rows must be objects"
  | notCell field => "field '" ++ field ++ "' must be a number or a string"
  | missingId => "missing string 'id'"
  | missingKind id => "dataset '" ++ id ++ "' is missing 'kind'"
  | unknownKind id kind => "dataset '" ++ id ++ "' has unknown kind '" ++ kind ++ "'"
  | missingRows id => "dataset '" ++ id ++ "' is missing 'rows'"

/-- The cell of a number or string. -/
def Cell.ofJson? : Json → Option Cell
  | .number (.integer n) =>
    match ofInt? n with
    | some word => some (.integer word)
    | none => some (.float (.ofInt n))
  | .number (.float x) => some (.float x)
  | .string s => some (.text s)
  | _ => none

namespace DatasetFile

/-- The row of an object's members. -/
def readCells : List (String × Json) → Except FileDefect (List (String × Cell))
  | [] => .ok []
  | (name, value) :: members =>
    match Cell.ofJson? value with
    | none => .error (.notCell name)
    | some cell => (readCells members).map ((name, cell) :: ·)

def readRow : Json → Except FileDefect Row
  | .object members => (readCells members).map (Std.ExtTreeMap.ofList ·)
  | _ => .error .rowNotObject

/-- Reads one table. -/
def readTable (document : Json) : Except FileDefect Table := do
  let id ← match (document.get? "id").bind Json.string? with
    | some id => .ok id
    | none => .error .missingId
  let word ← match (document.get? "kind").bind Json.string? with
    | some word => .ok word
    | none => .error (.missingKind id)
  let kind ← match Kind.ofName? word with
    | some kind => .ok kind
    | none => .error (.unknownKind id word)
  let items ← match (document.get? "rows").bind Json.array? with
    | some items => .ok items
    | none => .error (.missingRows id)
  let rows ← items.mapM readRow
  return { id, kind, rows }

/-- The tables of a file. -/
def read : Json → Except FileDefect (List Table)
  | .array items => items.mapM readTable
  | document => (readTable document).map ([·])

end DatasetFile

end CampusQuery
