import CampusQuery.Plan

/-!
# What can be wrong with a query

A defect is a cause; `Defect.message` words it.
-/

namespace CampusQuery

/-- The operators of a filter. -/
inductive Operator
  | and
  | or
  | not
  | is
  | compare (comparison : Comparison)
  deriving DecidableEq

namespace Operator

def keyword : Operator → String
  | and => "AND"
  | or => "OR"
  | not => "NOT"
  | is => "IS"
  | compare comparison => comparison.keyword

def ofKeyword? : String → Option Operator
  | "AND" => some and
  | "OR" => some or
  | "NOT" => some not
  | "IS" => some is
  | word => (Comparison.ofKeyword? word).map compare

end Operator

/-- A part of a query document. -/
inductive Part
  | query
  | conditions
  | options
  | transformations
  | columns
  | order
  | orderKeys
  | group
  | apply
  | applyRule
  | applyBody
  | filter (operator : Operator)
  | aggregate (aggregate : Aggregate)
  deriving DecidableEq

namespace Part

def name : Part → String
  | query => "Query"
  | conditions => "WHERE"
  | options => "OPTIONS"
  | transformations => "TRANSFORMATIONS"
  | columns => "COLUMNS"
  | order => "ORDER"
  | orderKeys => "ORDER keys"
  | group => "GROUP"
  | apply => "APPLY"
  | applyRule => "APPLY rule"
  | applyBody => "APPLY body"
  | filter op => op.keyword
  | aggregate function => function.keyword

end Part

/-- Why a document is not a query of the given datasets. -/
inductive Defect
  /-- A part must be an object. -/
  | notObject (part : Part)
  /-- A part must be an array. -/
  | notArray (part : Part)
  /-- A part must be an array with at least one item. -/
  | notNonEmptyArray (part : Part)
  /-- The items of a part must be strings. -/
  | notStrings (part : Part)
  /-- A part is missing. -/
  | missing (part : Part)
  /-- A part has a key that it must not have, or a reference that names no field. -/
  | unknownKey (key : String) (part : Part)
  /-- A part must have one key and has another number of them. -/
  | keyCount (part : Part) (count : Nat)
  /-- The dataset of the query is not there. -/
  | unknownDataset (id : String)
  /-- A reference is to another dataset than that of the query. -/
  | foreignReference (reference : String) (part : Part) (id : String)
  | emptyApplyKey
  | qualifiedApplyKey (key : String)
  | repeatedApplyKey (key : String)
  | unknownAggregate (word : String)
  /-- The field of an aggregate must be a string. -/
  | fieldNotString (aggregate : Aggregate)
  /-- A comparison or aggregate needs a numeric field. -/
  | notNumeric (part : Part) (name : String)
  /-- A pattern needs a text field. -/
  | notText (reference : String)
  /-- A comparison needs a number. -/
  | literalNotNumber (part : Part)
  /-- A pattern must be a string. -/
  | literalNotString
  | innerAsterisk (raw : String)
  | unknownOperator (word : String)
  /-- A column of a grouped query is neither a group field nor an apply key. -/
  | ungroupedColumn (column : String)
  /-- An order key is neither a column nor an apply key. -/
  | orderKeyNotShown (key : String)
  | unknownDirection
  /-- The order is neither a string nor an object. -/
  | orderType
  deriving DecidableEq

namespace Defect

def message : Defect → String
  | notObject part => part.name ++ " must be an object"
  | notArray part => part.name ++ " must be an array"
  | notNonEmptyArray part => part.name ++ " must be a non-empty array"
  | notStrings .orderKeys => "ORDER keys must be strings"
  | notStrings part => "Keys in " ++ part.name ++ " must be strings"
  | missing .columns => "Missing COLUMNS in OPTIONS"
  | missing .group => "TRANSFORMATIONS missing GROUP"
  | missing .apply => "TRANSFORMATIONS missing APPLY"
  | missing part => "Missing " ++ part.name
  | unknownKey key .query => "Excess key '" ++ key ++ "' in query"
  | unknownKey key part => "Invalid key '" ++ key ++ "' in " ++ part.name
  | keyCount .conditions count => "WHERE should only have 1 key, has " ++ toString count
  | keyCount part count => part.name ++ " should have exactly 1 key, has " ++ toString count
  | unknownDataset id => "Dataset '" ++ id ++ "' not added yet"
  | foreignReference reference part id =>
    "Cannot query more than one dataset: '" ++ reference ++ "' in " ++ part.name ++
      " is not in '" ++ id ++ "'"
  | emptyApplyKey => "Apply key cannot be empty"
  | qualifiedApplyKey key => "Apply key '" ++ key ++ "' cannot contain an underscore"
  | repeatedApplyKey key => "Duplicate apply key '" ++ key ++ "'"
  | unknownAggregate word => "Invalid transformation operator '" ++ word ++ "'"
  | fieldNotString aggregate => aggregate.keyword ++ " field must be a string"
  | notNumeric part name =>
    "Invalid key type in " ++ part.name ++ ": '" ++ name ++ "' is not numeric"
  | notText reference => "Invalid key type in IS: '" ++ reference ++ "' is not a string field"
  | literalNotNumber part => "Invalid value type in " ++ part.name ++ ": expected a number"
  | literalNotString => "Invalid value type in IS: expected a string"
  | innerAsterisk raw =>
    "Asterisks (*) must be at the start or end of IS value '" ++ raw ++ "'"
  | unknownOperator word => "Invalid filter key '" ++ word ++ "'"
  | ungroupedColumn column =>
    "Key '" ++ column ++
      "' in COLUMNS must be in GROUP or APPLY when TRANSFORMATIONS is present"
  | orderKeyNotShown key => "ORDER key '" ++ key ++ "' must be in COLUMNS or APPLY"
  | unknownDirection => "ORDER dir must be UP or DOWN"
  | orderType => "Invalid ORDER type"

end Defect

/-- Why a query has no answer. -/
inductive QueryError
  | invalid (defect : Defect)
  /-- The answer has more rows than a query may return. -/
  | tooManyRows (count : Nat)
  /-- The rows are in no order. This is no error that is returned: the program stops. -/
  | stopped
  deriving DecidableEq

/-- The greatest number of rows that a query may return. -/
def maxResults : Nat := 5000

def QueryError.message : QueryError → String
  | invalid defect => "Invalid query: " ++ defect.message
  | tooManyRows count =>
    "Too many results (" ++ toString count ++ " > " ++ toString maxResults ++
      "). Try tightening your query conditions."
  | stopped => "user-provided comparison function does not correctly implement a total order"

end CampusQuery
