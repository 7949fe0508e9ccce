import CampusQuery.Query.Outline

/-!
# Conditions of a query

`WHERE` is empty or one filter: an object with the operator as its only key. The operators `AND`
and `OR` take filters in an array, `NOT` takes one, and the others take an object that binds one
field to a literal.
-/

namespace CampusQuery.Query

/-- Reads the comparison of a numeric field with a number. -/
def readComparison (dataset : Descriptor) (comparison : Comparison) (body : Json) :
    Except Defect Filter := do
  let part := Part.filter (.compare comparison)
  let (reference, literal) ← singleMember part body
  let field ← resolveField dataset part reference
  if field.type ≠ .numeric then .error (.notNumeric part reference)
  else
    match literal with
    | .number n => return .compare comparison field.name n.toBinary64
    | _ => .error (.literalNotNumber part)

/-- Reads the pattern of a text field. -/
def readPattern (dataset : Descriptor) (body : Json) : Except Defect Filter := do
  let part := Part.filter .is
  let (reference, literal) ← singleMember part body
  let field ← resolveField dataset part reference
  if field.type ≠ .text then .error (.notText reference)
  else
    match literal with
    | .string raw =>
      match Pattern.ofText? raw with
      | some pattern => return .is field.name pattern
      | none => .error (.innerAsterisk raw)
    | _ => .error .literalNotString

mutual

/-- Reads a filter within the given part. -/
def readFilter (dataset : Descriptor) (part : Part) : Json → Except Defect Filter
  | .object [(word, body)] =>
    match Operator.ofKeyword? word, body with
    | none, _ => .error (.unknownOperator word)
    | some .and, .array (item :: items) => do
      return .and (← readFilters dataset (.filter .and) (item :: items))
    | some .or, .array (item :: items) => do
      return .or (← readFilters dataset (.filter .or) (item :: items))
    | some .and, _ => .error (.notNonEmptyArray (.filter .and))
    | some .or, _ => .error (.notNonEmptyArray (.filter .or))
    | some .not, inner => do return .not (← readFilter dataset (.filter .not) inner)
    | some .is, body => readPattern dataset body
    | some (.compare comparison), body => readComparison dataset comparison body
  | .object members => .error (.keyCount part members.length)
  | _ => .error (.notObject part)

/-- Reads the filters of an array. -/
def readFilters (dataset : Descriptor) (part : Part) : List Json → Except Defect (List Filter)
  | [] => .ok []
  | item :: items => do
    let filter ← readFilter dataset part item
    let filters ← readFilters dataset part items
    return filter :: filters

end

/-- Reads the members of `WHERE`; without any, every row is kept. -/
def readConditions (dataset : Descriptor) (members : List (String × Json)) :
    Except Defect Filter :=
  match members with
  | [] => .ok .all
  | members => readFilter dataset .conditions (.object members)

/-- The plan of an outline: its conditions, its options and its transformation are read. -/
def Outline.toPlan (outline : Outline) : Except Defect Plan := do
  let filter ← readConditions outline.dataset outline.conditions
  let (columns, order) ← readOptions outline.dataset outline.keys outline.options
  let transformation ← outline.grouping.mapM (readTransformation outline.dataset)
  return { dataset := outline.dataset, filter, columns, order, transformation }

end CampusQuery.Query

namespace CampusQuery

/-- The plan of a query document. -/
def Plan.ofDocument (datasets : List Descriptor) (document : Json) : Except Defect Plan := do
  let outline ← Query.Outline.ofDocument datasets document
  outline.toPlan

end CampusQuery
