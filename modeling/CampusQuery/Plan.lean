import CampusQuery.Filter
import CampusQuery.Schema

/-!
# Query plans

A plan says what a query does with the rows of one dataset: which of them it keeps, how it groups
them, how it orders the outcome and which columns it shows. Fields are named without the dataset.
-/

namespace CampusQuery

/-- What a column shows: a field of the dataset or the result of an apply rule. -/
inductive Column
  | field (name : String)
  | apply (key : String)
  deriving DecidableEq

inductive Direction
  | up
  | down
  deriving DecidableEq

/-- How rows are ordered: by the first key on which they differ. -/
structure Order where
  direction : Direction
  keys : List Column
  deriving DecidableEq

/-- How the cells of a group become one. -/
inductive Aggregate
  | max
  | min
  | avg
  | sum
  | count
  deriving DecidableEq, Repr

namespace Aggregate

def keyword : Aggregate → String
  | max => "MAX"
  | min => "MIN"
  | avg => "AVG"
  | sum => "SUM"
  | count => "COUNT"

def ofKeyword? : String → Option Aggregate
  | "MAX" => some max
  | "MIN" => some min
  | "AVG" => some avg
  | "SUM" => some sum
  | "COUNT" => some count
  | _ => none

/-- Anything can be counted; the other aggregates need numbers. -/
def accepts (aggregate : Aggregate) (type : FieldType) : Bool :=
  aggregate = count || type = .numeric

end Aggregate

/-- An aggregate of a field of the rows of a group, shown under a key. -/
structure ApplyRule where
  key : String
  aggregate : Aggregate
  field : String
  deriving DecidableEq

structure Transformation where
  group : List String
  rules : List ApplyRule
  deriving DecidableEq

structure Plan where
  dataset : Descriptor
  filter : Filter
  columns : List Column
  order : Option Order
  transformation : Option Transformation

end CampusQuery
