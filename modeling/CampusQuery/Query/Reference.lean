import CampusQuery.Json.Basic
import CampusQuery.Query.ApplyKeys

/-!
# References

A field is referred to by the id of its dataset, an underscore and its name. The id ends at the
first underscore. An apply key is referred to by itself.
-/

namespace CampusQuery

namespace Query

/-- The text before the first underscore, or the whole text if there is none. -/
def qualifier (reference : String) : String :=
  .ofList (reference.toList.takeWhile (· ≠ '_'))

/-- The text after the first underscore. -/
def unqualified? (reference : String) : Option String :=
  match reference.toList.dropWhile (· ≠ '_') with
  | [] => none
  | _ :: name => some (.ofList name)

/-- The field that a reference within a part of the query names. -/
def resolveField (dataset : Descriptor) (part : Part) (reference : String) :
    Except Defect Field :=
  match unqualified? reference with
  | none => .error (.unknownKey reference part)
  | some name =>
    if qualifier reference ≠ dataset.id then
      .error (.foreignReference reference part dataset.id)
    else
      match dataset.kind.field? name with
      | none => .error (.unknownKey reference part)
      | some field => .ok field

/-- The column that a reference names. -/
def resolveColumn (dataset : Descriptor) (keys : ApplyKeys) (part : Part) (reference : String) :
    Except Defect Column :=
  if reference ∈ keys then .ok (.apply reference)
  else (resolveField dataset part reference).map fun field => .field field.name

/-- The only member of an object. -/
def singleMember (part : Part) : Json → Except Defect (String × Json)
  | .object [member] => .ok member
  | .object members => .error (.keyCount part members.length)
  | _ => .error (.notObject part)

/-- Refuses an object with a key that is not among the given ones. -/
def checkKeys (part : Part) (allowed : List String) (members : List (String × Json)) :
    Except Defect Unit :=
  match members.find? fun member => member.1 ∉ allowed with
  | some member => .error (.unknownKey member.1 part)
  | none => .ok ()

/-- The members of a part that must be an object. -/
def requireObject (part : Part) : Json → Except Defect (List (String × Json))
  | .object members => .ok members
  | _ => .error (.notObject part)

/-- The string that an item of a part must be. -/
def requireString (part : Part) : Json → Except Defect String
  | .string s => .ok s
  | _ => .error (.notStrings part)

end Query

end CampusQuery
