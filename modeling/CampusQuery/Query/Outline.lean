import CampusQuery.Query.Options

/-!
# Outline of a query

An outline is a query in which everything but the conditions has been checked: its dataset and its
apply keys are known, and its parts are there. The parts themselves are still documents. The
dataset is the first one that the first column's qualifier names.
-/

namespace CampusQuery

structure Query.Outline where
  dataset : Descriptor
  keys : ApplyKeys
  conditions : List (String × Json)
  options : List (String × Json)
  grouping : Option (List (String × Json))

namespace Query

/-- The members of a part that must be there. -/
def readSection (part : Part) (members : List (String × Json)) :
    Except Defect (List (String × Json)) :=
  match Json.fieldOf? part.name members with
  | some (.object fields) => .ok fields
  | some _ => .error (.notObject part)
  | none => .error (.missing part)

/-- The first item of `COLUMNS`, which must have one. -/
def readFirstColumn (options : List (String × Json)) : Except Defect Json :=
  match Json.fieldOf? "COLUMNS" options with
  | some (.array (item :: _)) => .ok item
  | some _ => .error (.notNonEmptyArray .columns)
  | none => .error (.missing .columns)

/-- The members of `TRANSFORMATIONS`, if there are any. -/
def readGrouping (members : List (String × Json)) :
    Except Defect (Option (List (String × Json))) :=
  match Json.fieldOf? "TRANSFORMATIONS" members with
  | none | some .null => .ok none
  | some (.object fields) => .ok (some fields)
  | some _ => .error (.notObject .transformations)

/-- The dataset that the first column is qualified with. -/
def readDataset (datasets : List Descriptor) (firstColumn : Json) : Except Defect Descriptor := do
  let reference ← requireString .columns firstColumn
  match datasets.find? (·.id = qualifier reference) with
  | some dataset => return dataset
  | none => .error (.unknownDataset (qualifier reference))

/-- The keys of the rules of a transformation, if there is one. -/
def readKeys (dataset : Descriptor) : Option (List (String × Json)) → Except Defect ApplyKeys
  | none => .ok .empty
  | some members => checkTransformation dataset members

/-- Checks all of a query but its conditions. -/
def Outline.ofDocument (datasets : List Descriptor) (document : Json) :
    Except Defect Outline := do
  let members ← requireObject .query document
  checkKeys .query ["WHERE", "OPTIONS", "TRANSFORMATIONS"] members
  let conditions ← readSection .conditions members
  let options ← readSection .options members
  let firstColumn ← readFirstColumn options
  let grouping ← readGrouping members
  let dataset ← readDataset datasets firstColumn
  let keys ← readKeys dataset grouping
  checkOptions dataset keys grouping options
  return { dataset, keys, conditions, options, grouping }

end Query

end CampusQuery
