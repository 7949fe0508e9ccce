import CampusQuery.Projection
import CampusQuery.Query.Conditions

/-!
# Answering queries

A plan is run on rows by filtering, grouping, ordering and projecting them. A source answers a
query document: the plan is made from the descriptors alone, and only then are rows looked up.
-/

namespace CampusQuery

/-- The rows of a plan before they are ordered. -/
def Plan.unsortedRows (plan : Plan) (rows : List Row) : List WorkingRow :=
  transformRows plan.transformation (plan.filter.select rows)

/-- The rows of a plan before projection. -/
def Plan.workingRows? (plan : Plan) (rows : List Row) : Option (List WorkingRow) :=
  sortRows? plan.order (plan.unsortedRows rows)

/-- The answer of a plan on the rows of its dataset. -/
def Plan.run (plan : Plan) (rows : List Row) : Except QueryError (List ResultRow) :=
  match plan.workingRows? rows with
  | none => .error .stopped
  | some rows => projectRows plan.dataset.id plan.columns rows

/-- What queries are answered from. -/
structure Source where
  datasets : List Descriptor
  rows? : String → Option (List Row)

namespace Source

/-- The plan of a query document against the datasets of the source. -/
def plan (source : Source) (document : Json) : Except QueryError Plan :=
  (Plan.ofDocument source.datasets document).mapError .invalid

/-- The answer to a query document. -/
def answer (source : Source) (document : Json) : Except QueryError (List ResultRow) := do
  let plan ← source.plan document
  match source.rows? plan.dataset.id with
  | none => .error (.invalid (.unknownDataset plan.dataset.id))
  | some rows => plan.run rows

end Source

end CampusQuery
