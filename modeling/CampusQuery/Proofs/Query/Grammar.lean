import CampusQuery.Proofs.Pattern
import CampusQuery.Proofs.Query.Reference

/-!
# The grammar of queries

Which documents are queries of a list of datasets, said without the reader: `IsCondition` for a
filter, `IsTransformation` for grouping, `IsOptions` for what is shown and in which order, and
`IsQuery` for the whole. A query has one dataset, the first that the first column names, and every
reference in it is to a field of that dataset.

`Parts` holds what the parts of a query say about one another: the strings of `COLUMNS` and
`GROUP` and the keys of `APPLY` as they are written.
-/

namespace CampusQuery

/-- The word for a direction. -/
def Direction.word : Direction → String
  | up => "UP"
  | down => "DOWN"

namespace Query

/-- A filter: one operator with what it is applied to. -/
inductive IsCondition (dataset : Descriptor) : Json → Prop
  | and {items : List Json} (nonempty : items ≠ [])
    (each : ∀ item ∈ items, IsCondition dataset item) :
    IsCondition dataset (.object [("AND", .array items)])
  | or {items : List Json} (nonempty : items ≠ [])
    (each : ∀ item ∈ items, IsCondition dataset item) :
    IsCondition dataset (.object [("OR", .array items)])
  | not {item : Json} (h : IsCondition dataset item) :
    IsCondition dataset (.object [("NOT", item)])
  | greater {reference : String} {field : Field} (n : Json.Number)
    (found : Refers dataset reference field) (numeric : field.type = .numeric) :
    IsCondition dataset (.object [("GT", .object [(reference, .number n)])])
  | less {reference : String} {field : Field} (n : Json.Number)
    (found : Refers dataset reference field) (numeric : field.type = .numeric) :
    IsCondition dataset (.object [("LT", .object [(reference, .number n)])])
  | equal {reference : String} {field : Field} (n : Json.Number)
    (found : Refers dataset reference field) (numeric : field.type = .numeric) :
    IsCondition dataset (.object [("EQ", .object [(reference, .number n)])])
  | is {reference raw : String} {field : Field}
    (found : Refers dataset reference field) (text : field.type = .text)
    (outer : Pattern.OuterAsterisks raw) :
    IsCondition dataset (.object [("IS", .object [(reference, .string raw)])])

/-- The members of `WHERE`: none, or one filter. -/
def IsConditions (dataset : Descriptor) (members : List (String × Json)) : Prop :=
  members = [] ∨ IsCondition dataset (.object members)

/-- A rule that binds the key to an aggregate of a field. -/
def IsRule (dataset : Descriptor) (item : Json) (key : String) : Prop :=
  ∃ aggregate reference field,
    item = .object [(key, .object [(Aggregate.keyword aggregate, .string reference)])] ∧
      Refers dataset reference field ∧ (aggregate = .count ∨ field.type = .numeric)

/-- The members of `TRANSFORMATIONS`, with the strings of `GROUP` and the keys of `APPLY`. -/
structure IsTransformation (dataset : Descriptor) (members : List (String × Json))
    (group keys : List String) : Prop where
  keysAmong : KeysAmong ["GROUP", "APPLY"] members
  group_eq : Json.fieldOf? "GROUP" members = some (.array (group.map .string))
  group_nonempty : group ≠ []
  group_refers : ∀ reference ∈ group, ∃ field, Refers dataset reference field
  rules : ∃ items, Json.fieldOf? "APPLY" members = some (.array items) ∧
    List.Forall₂ (IsRule dataset) items keys
  keys_nodup : keys.Nodup
  keys_proper : ∀ key ∈ keys, key ≠ "" ∧ '_' ∉ key.toList

/-- Nothing is grouped and there are no keys, or there are members of `TRANSFORMATIONS`. -/
inductive IsGrouping (dataset : Descriptor) :
    Option (List (String × Json)) → Option (List String) → List String → Prop
  | none : IsGrouping dataset none none []
  | some {members : List (String × Json)} {group keys : List String}
    (h : IsTransformation dataset members group keys) :
    IsGrouping dataset (some members) (some group) keys

/-- A column is an apply key or a field, and of a grouped query a field of `GROUP`. -/
def IsColumn (dataset : Descriptor) (group : Option (List String)) (keys : List String)
    (reference : String) : Prop :=
  reference ∈ keys ∨
    (∃ field, Refers dataset reference field) ∧ ∀ references, group = some references →
      reference ∈ references

/-- An order key is one of the columns or an apply key. -/
def IsOrderKey (columns keys : List String) (reference : String) : Prop :=
  reference ∈ columns ∨ reference ∈ keys

/-- The order, if there is one: a key, or a direction with a list of keys. -/
def IsOrder (columns keys : List String) : Option Json → Prop
  | none | some .null => True
  | some (.string reference) => IsOrderKey columns keys reference
  | some (.object members) =>
    KeysAmong ["dir", "keys"] members ∧
      (∃ direction, Json.fieldOf? "dir" members = some (.string (Direction.word direction))) ∧
      ∃ references, Json.fieldOf? "keys" members = some (.array (references.map .string)) ∧
        references ≠ [] ∧ ∀ reference ∈ references, IsOrderKey columns keys reference
  | some _ => False

/-- The members of `OPTIONS`, with the strings of `COLUMNS`. -/
structure IsOptions (dataset : Descriptor) (group : Option (List String)) (keys : List String)
    (members : List (String × Json)) (columns : List String) : Prop where
  keysAmong : KeysAmong ["COLUMNS", "ORDER"] members
  columns_eq : Json.fieldOf? "COLUMNS" members = some (.array (columns.map .string))
  columns_ok : ∀ reference ∈ columns, IsColumn dataset group keys reference
  order : IsOrder columns keys (Json.fieldOf? "ORDER" members)

/-- The dataset of a query: the first one that the first column's qualifier names. -/
def IsTarget (datasets : List Descriptor) (columns : List String) (dataset : Descriptor) : Prop :=
  (∃ first, columns.head? = some first ∧ Qualifies dataset.id first) ∧
    datasets.find? (·.id = dataset.id) = some dataset

/-- The members of `TRANSFORMATIONS`, which may be absent or null. -/
inductive IsOptionalObject : Option Json → Option (List (String × Json)) → Prop
  | absent : IsOptionalObject none none
  | null : IsOptionalObject (some .null) none
  | object (members : List (String × Json)) :
    IsOptionalObject (some (.object members)) (some members)

structure Parts where
  dataset : Descriptor
  conditions : List (String × Json)
  options : List (String × Json)
  columns : List String
  grouping : Option (List (String × Json))
  group : Option (List String)
  keys : List String

/-- The parts of a document are those of a query, its conditions left aside. -/
structure Parts.Outlines (parts : Parts) (datasets : List Descriptor) (document : Json) : Prop where
  sections : ∃ members, document = .object members ∧
    KeysAmong ["WHERE", "OPTIONS", "TRANSFORMATIONS"] members ∧
    Json.fieldOf? "WHERE" members = some (.object parts.conditions) ∧
    Json.fieldOf? "OPTIONS" members = some (.object parts.options) ∧
    IsOptionalObject (Json.fieldOf? "TRANSFORMATIONS" members) parts.grouping
  target : IsTarget datasets parts.columns parts.dataset
  grouping : IsGrouping parts.dataset parts.grouping parts.group parts.keys
  options : IsOptions parts.dataset parts.group parts.keys parts.options parts.columns

/-- A document is a query of one of the datasets. -/
def IsQuery (datasets : List Descriptor) (document : Json) : Prop :=
  ∃ parts : Parts, parts.Outlines datasets document ∧ IsConditions parts.dataset parts.conditions

end Query

end CampusQuery
