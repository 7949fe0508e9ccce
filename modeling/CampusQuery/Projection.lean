import CampusQuery.Query.Defect
import CampusQuery.ResultRow
import CampusQuery.Sorting

/-!
# Projection

A result row shows the cells of the plan's columns: an apply key under its own name, a field under
its name qualified with the dataset's id. A result never has more than `maxResults` rows.
-/

namespace CampusQuery

/-- The name under which a column is shown. -/
def Column.label (id : String) : Column → String
  | field name => id ++ "_" ++ name
  | apply key => key

/-- The result row that shows the given columns, without those the row has no cell for. -/
def WorkingRow.project (id : String) (columns : List Column) (row : WorkingRow) : ResultRow :=
  .ofList (columns.filterMap fun column => (row.get? column).map fun cell =>
    (column.label id, cell))

/-- The result rows, unless there are too many. -/
def projectRows (id : String) (columns : List Column) (rows : List WorkingRow) :
    Except QueryError (List ResultRow) :=
  if maxResults < rows.length then .error (.tooManyRows rows.length)
  else .ok (rows.map (·.project id columns))

end CampusQuery
