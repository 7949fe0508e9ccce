import CampusQuery.Aggregation

/-!
# Groups of rows

Rows that agree on the keys of all group fields form a group. The groups come in the order in which
their first rows do, and the rows within a group keep their order.
-/

namespace CampusQuery

/-- A row on its way to the result: one of the dataset, or a group with its own cells in the group
fields and the results of the apply rules. -/
inductive WorkingRow
  | source (row : Row)
  | group (fields aggregates : Row)
  deriving DecidableEq

/-- The cell that a column shows of a row. -/
def WorkingRow.get? : WorkingRow → Column → Option Cell
  | source row, .field name => row[name]?
  | source _, .apply _ => none
  | group fields _, .field name => fields[name]?
  | group _ aggregates, .apply key => aggregates[key]?

/-- What rows of one group share: the keys of their cells in the group fields. -/
abbrev GroupKey := List (Option CellKey)

def Row.groupKey (fields : List String) (row : Row) : GroupKey :=
  fields.map fun name => row[name]?.map Cell.key

/-- Groups under way: their keys and their members so far, in both cases the last one first. -/
structure Groups where
  keys : List GroupKey
  members : Std.ExtTreeMap GroupKey (List Row)

namespace Groups

def empty : Groups := ⟨[], ∅⟩

/-- Adds a row to the group with the given key, which is a new one if there is none yet. -/
def insert (groups : Groups) (key : GroupKey) (row : Row) : Groups :=
  match groups.members[key]? with
  | some rows => ⟨groups.keys, groups.members.insert key (row :: rows)⟩
  | none => ⟨key :: groups.keys, groups.members.insert key [row]⟩

/-- The members of each group. -/
def toLists (groups : Groups) : List (List Row) :=
  groups.keys.reverse.map fun key => (groups.members.getD key []).reverse

end Groups

/-- The groups of a list of rows by the given fields. -/
def groupRows (fields : List String) (rows : List Row) : List (List Row) :=
  (rows.foldl (fun groups row => groups.insert (row.groupKey fields) row) Groups.empty).toLists

/-- The cells of a row in the given fields. -/
def Row.restrict (fields : List String) (row : Row) : Row :=
  fields.foldl (fun kept name =>
    match row[name]? with
    | some cell => kept.insert name cell
    | none => kept) ∅

/-- The value of an apply rule on the members of a group; a member without the field is skipped. -/
def ApplyRule.eval (rule : ApplyRule) (members : List Row) : Cell :=
  rule.aggregate.eval (members.filterMap fun row => row[rule.field]?)

namespace Transformation

/-- The row that a group becomes. Its first member stands for all in the group fields. -/
def collapse (t : Transformation) (members : List Row) : WorkingRow :=
  .group ((members.head?.map (·.restrict t.group)).getD ∅)
    (t.rules.foldl (fun results rule => results.insert rule.key (rule.eval members)) ∅)

/-- One row for each group. -/
def run (t : Transformation) (rows : List Row) : List WorkingRow :=
  (groupRows t.group rows).map t.collapse

end Transformation

/-- The rows after grouping, or the rows themselves if nothing is grouped. -/
def transformRows (transformation : Option Transformation) (rows : List Row) : List WorkingRow :=
  match transformation with
  | none => rows.map .source
  | some t => t.run rows

end CampusQuery
