import CampusQuery.Query.Reference

/-!
# Transformations of a query

`TRANSFORMATIONS` has the group fields and the apply rules. Each rule binds a key to an aggregate of
a field. The members are first checked, the rules before the group fields, which gives the keys of
the rules; they are read once the whole query has been checked.
-/

namespace CampusQuery.Query

/-- Reads the aggregate of a rule and the reference to its field. -/
def readAggregate (body : Json) : Except Defect (Aggregate × String) := do
  let (word, value) ← singleMember .applyBody body
  match Aggregate.ofKeyword? word with
  | none => .error (.unknownAggregate word)
  | some aggregate =>
    match value with
    | .string reference => return (aggregate, reference)
    | _ => .error (.fieldNotString aggregate)

/-- Checks a rule that comes after others with the given keys, and declares its own. -/
def checkRule (dataset : Descriptor) (keys : ApplyKeys) (rule : Json) :
    Except Defect ApplyKeys := do
  let (key, body) ← singleMember .applyRule rule
  let keys ← keys.declare key
  let (aggregate, reference) ← readAggregate body
  let field ← resolveField dataset .apply reference
  if aggregate.accepts field.type then return keys
  else .error (.notNumeric (.aggregate aggregate) field.name)

/-- Reads a rule. -/
def readRule (dataset : Descriptor) (rule : Json) : Except Defect ApplyRule := do
  let (key, body) ← singleMember .applyRule rule
  let (aggregate, reference) ← readAggregate body
  let field ← resolveField dataset .apply reference
  return ⟨key, aggregate, field.name⟩

/-- Reads the field that an item of the group list refers to. -/
def readGroupField (dataset : Descriptor) (item : Json) : Except Defect String := do
  let reference ← requireString .group item
  let field ← resolveField dataset .group reference
  return field.name

def readGroupItems (members : List (String × Json)) : Except Defect (List Json) :=
  match Json.fieldOf? "GROUP" members with
  | some (.array []) => .error (.notNonEmptyArray .group)
  | some (.array items) => .ok items
  | some _ => .error (.notNonEmptyArray .group)
  | none => .error (.missing .group)

def readRuleItems (members : List (String × Json)) : Except Defect (List Json) :=
  match Json.fieldOf? "APPLY" members with
  | some (.array items) => .ok items
  | some _ => .error (.notArray .apply)
  | none => .error (.missing .apply)

/-- Checks the members of `TRANSFORMATIONS` and gives the keys of the rules. -/
def checkTransformation (dataset : Descriptor) (members : List (String × Json)) :
    Except Defect ApplyKeys := do
  checkKeys .transformations ["GROUP", "APPLY"] members
  let groupItems ← readGroupItems members
  let ruleItems ← readRuleItems members
  let keys ← ruleItems.foldlM (checkRule dataset) .empty
  let _ ← groupItems.mapM (readGroupField dataset)
  return keys

/-- Reads the group fields. -/
def readGroup (dataset : Descriptor) (members : List (String × Json)) :
    Except Defect (List String) :=
  match Json.fieldOf? "GROUP" members with
  | some (.array items) => items.mapM (readGroupField dataset)
  | _ => .error (.missing .group)

/-- Reads the apply rules. -/
def readRules (dataset : Descriptor) (members : List (String × Json)) :
    Except Defect (List ApplyRule) :=
  match Json.fieldOf? "APPLY" members with
  | some (.array items) => items.mapM (readRule dataset)
  | _ => .error (.missing .apply)

/-- Reads the members of `TRANSFORMATIONS`. -/
def readTransformation (dataset : Descriptor) (members : List (String × Json)) :
    Except Defect Transformation := do
  let group ← readGroup dataset members
  let rules ← readRules dataset members
  return ⟨group, rules⟩

end CampusQuery.Query
