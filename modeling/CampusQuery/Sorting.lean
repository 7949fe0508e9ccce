import CampusQuery.Grouping
import CampusQuery.StableSort

/-!
# Order of rows

Rows are compared key by key, and the first key on which they differ decides. A row without a cell
comes before one with it. Sorting is stable in both directions. Cells need not be in a total order,
and so there may be no sorted rows.
-/

namespace CampusQuery

def Direction.apply : Direction → Ordering → Ordering
  | up, ordering => ordering
  | down, ordering => ordering.swap

/-- The order of two cells either of which may be absent; an absent one is the least. -/
def compareCells : Option Cell → Option Cell → Ordering
  | none, none => .eq
  | none, some _ => .lt
  | some _, none => .gt
  | some a, some b => a.compare b

namespace Order

/-- The order of two rows under one key. -/
def compareBy (direction : Direction) (key : Column) (a b : WorkingRow) : Ordering :=
  direction.apply (compareCells (a.get? key) (b.get? key))

/-- The order of two rows under all keys. -/
def compareRows (order : Order) (a b : WorkingRow) : Ordering :=
  order.keys.foldr (fun key rest => (compareBy order.direction key a b).then rest) .eq

def sort? (order : Order) (rows : List WorkingRow) : Option (List WorkingRow) :=
  StableSort.sort? (fun a b => order.compareRows a b = .lt) rows

end Order

/-- The rows in the given order, or as they are without one. -/
def sortRows? (order : Option Order) (rows : List WorkingRow) : Option (List WorkingRow) :=
  match order with
  | none => some rows
  | some order => order.sort? rows

end CampusQuery
