import CampusQuery.Proofs.Json.Results
import CampusQuery.Proofs.ResultRow

/-!
# Result rows as objects

An object is collected from its members one after another, and a name that comes again is bound to
the later value (`Json.collect`), where a result row keeps the first. Members with different names
are all there, in their order (`Json.collect_eq_self`). So no cell of a row is lost in its object:
the names of the row are the names of the object, and each stands for the JSON of its cell
(`renders_members`).

The main statement, `keeps_first`, puts this together with what a row keeps.
-/

namespace CampusQuery

namespace Json

/-- The members of the object in which the given ones are bound one after another. -/
def collect (members : List (String × Json)) : List (String × Json) :=
  members.foldl (fun fields (name, value) => setField name value fields) []

theorem collect_concat (members : List (String × Json)) (name : String) (value : Json) :
    collect (members ++ [(name, value)]) = setField name value (collect members) :=
  List.foldl_append

theorem collect_eq_self {members : List (String × Json)} (names : (members.map Prod.fst).Nodup) :
    collect members = members := by
  induction members using List.reverseRecOn with
  | nil => rfl
  | append_singleton members last ih =>
    obtain ⟨name, value⟩ := last
    have fresh : name ∉ members.map Prod.fst := not_mem_of_nodup names
    have before : (members.map Prod.fst).Nodup := by
      rw [List.map_append] at names
      exact names.of_append_left
    rw [collect_concat, ih before, setField_of_not_mem fresh]

end Json

namespace ResultRow

/-- The members of an object show a row: they are collected from its cells, and have its names, in
their order, each bound to the JSON of its cell. -/
structure Renders (row : ResultRow) (fields : List (String × Json)) : Prop where
  collected : fields = Json.collect (row.cells.map fun (name, cell) => (name, .ofCell cell))
  names : fields.map Prod.fst = row.names
  values : ∀ name, Json.fieldOf? name fields = (row.get? name).map .ofCell

theorem fieldOf?_members (row : ResultRow) (name : String) :
    Json.fieldOf? name row.members = (row.get? name).map .ofCell := by
  rw [members, get?]
  induction row.cells with
  | nil => rfl
  | cons entry cells ih =>
    obtain ⟨other, cell⟩ := entry
    rw [List.map_cons, Json.fieldOf?, List.lookup_cons]
    by_cases same : other = name
    · simp [same]
    · rw [if_neg same, beq_false_of_ne (Ne.symm same), ih]

theorem renders_members (row : ResultRow) : row.Renders row.members where
  collected :=
    have names : (row.members.map Prod.fst).Nodup := row.names_members ▸ row.names_nodup
    (Json.collect_eq_self names).symm
  names := row.names_members
  values := row.fieldOf?_members

/-- A row keeps the first cell that is pushed under each name. To push entries onto a row is to
collect them behind its cells; the row is collected from its own cells, however often they come
again, and repeated entries count once. In JSON every row is an object with the names of the row,
each bound to the JSON of its cell. -/
theorem keeps_first (entries : List (String × Cell)) (row : ResultRow) (rows : List ResultRow) :
    Keeps entries (empty.pushAll entries) ∧
    row.pushAll entries = ofList (row.cells ++ entries) ∧
    (∀ times, ofList (List.replicate (times + 1) row.cells).flatten = row) ∧
    ofList entries.eraseDups = ofList entries ∧
    ∃ objects : List (List (String × Json)),
      Json.ofRows rows = .array (objects.map .object) ∧
      List.Forall₂ Renders rows objects := by
  refine ⟨keeps_ofList entries, pushAll_eq_ofList row entries, ofList_repeated row,
    ofList_eraseDups entries, rows.map members, ?_, ?_⟩
  · rw [Json.ofRows, List.map_map]
    rfl
  · rw [List.forall₂_map_right_iff, List.forall₂_same]
    exact fun row _ => row.renders_members

/-- A name that comes again between others changes neither its cell nor its place. -/
example : (ofList [("dept", .text "cpsc"), ("avg", .integer 80), ("dept", .text "math"),
    ("title", .text "theory"), ("avg", .integer 90)]).cells =
      [("dept", .text "cpsc"), ("avg", .integer 80), ("title", .text "theory")] := by
  decide

end ResultRow

end CampusQuery
