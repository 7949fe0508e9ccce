/-!
# The two kinds of datasets

A dataset holds course sections or campus rooms. Its kind fixes the fields of every row and tells
for each whether it holds numbers or text.
-/

namespace CampusQuery

/-- What a field holds. -/
inductive FieldType
  | numeric
  | text
  deriving DecidableEq, Repr

structure Field where
  name : String
  type : FieldType
  deriving DecidableEq, Repr

/-- What the rows of a dataset describe. -/
inductive Kind
  | sections
  | rooms
  deriving DecidableEq, Repr

namespace Kind

def name : Kind → String
  | sections => "sections"
  | rooms => "rooms"

/-- The kind that a word names, in upper or lower case. Only ASCII letters are folded: no other
letter has one of the letters of these words as its lower case. -/
def ofName? (word : String) : Option Kind :=
  match word.toLower with
  | "sections" | "courses" => some sections
  | "rooms" => some rooms
  | _ => none

/-- The fields of every row of the kind. -/
def fields : Kind → List Field
  | sections =>
    [⟨"dept", .text⟩, ⟨"id", .text⟩, ⟨"instructor", .text⟩, ⟨"title", .text⟩,
      ⟨"uuid", .text⟩, ⟨"avg", .numeric⟩, ⟨"pass", .numeric⟩, ⟨"fail", .numeric⟩,
      ⟨"audit", .numeric⟩, ⟨"year", .numeric⟩]
  | rooms =>
    [⟨"fullname", .text⟩, ⟨"shortname", .text⟩, ⟨"number", .text⟩, ⟨"name", .text⟩,
      ⟨"address", .text⟩, ⟨"type", .text⟩, ⟨"furniture", .text⟩, ⟨"href", .text⟩,
      ⟨"lat", .numeric⟩, ⟨"lon", .numeric⟩, ⟨"seats", .numeric⟩]

def field? (kind : Kind) (name : String) : Option Field :=
  kind.fields.find? (·.name = name)

theorem name_of_field? {kind : Kind} {name : String} {field : Field}
    (h : kind.field? name = some field) : field.name = name := by
  simpa using List.find?_some h

theorem mem_fields_of_field? {kind : Kind} {name : String} {field : Field}
    (h : kind.field? name = some field) : field ∈ kind.fields :=
  List.mem_of_find?_eq_some h

end Kind

/-- What is known of a dataset without its rows. -/
structure Descriptor where
  id : String
  kind : Kind
  rowCount : Nat
  deriving DecidableEq, Repr

end CampusQuery
