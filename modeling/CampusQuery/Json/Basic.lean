import CampusQuery.Binary64.Arithmetic

/-!
# JSON documents

The members of an object keep the order in which their names first appear. A number is either
whole, kept exactly, or a binary64 number, and the two are different documents: `90` is not `90.0`.

`setField` is how members are collected: a name seen before keeps its place (`names_setField`).
-/

namespace CampusQuery

namespace Json

/-- The number of a document. -/
inductive Number
  | integer (n : Int)
  | float (x : Binary64)
  deriving DecidableEq

/-- The nearest binary64 number. -/
def Number.toBinary64 : Number → Binary64
  | .integer n => .ofInt n
  | .float x => x

end Json

/-- A JSON document. -/
inductive Json
  | null
  | bool (b : Bool)
  | number (n : Json.Number)
  | string (s : String)
  | array (items : List Json)
  | object (fields : List (String × Json))

instance : Inhabited Json := ⟨.null⟩

namespace Json

/-- What a name stands for among the members of an object. -/
def fieldOf? (name : String) : List (String × Json) → Option Json
  | [] => none
  | (other, value) :: rest => if other = name then some value else fieldOf? name rest

/-- Binds a name to a value: a name that is there keeps its place, a new one goes to the end. -/
def setField (name : String) (value : Json) : List (String × Json) → List (String × Json)
  | [] => [(name, value)]
  | (other, old) :: rest =>
    if other = name then (other, value) :: rest else (other, old) :: setField name value rest

/-- The member of an object; nothing else has members. -/
def get? (name : String) : Json → Option Json
  | .object fields => fieldOf? name fields
  | _ => none

def string? : Json → Option String
  | .string s => some s
  | _ => none

def array? : Json → Option (List Json)
  | .array items => some items
  | _ => none

theorem names_setField (name : String) (value : Json) (fields : List (String × Json)) :
    (setField name value fields).map Prod.fst =
      if name ∈ fields.map Prod.fst then fields.map Prod.fst
      else fields.map Prod.fst ++ [name] := by
  induction fields with
  | nil => simp [setField]
  | cons field rest ih =>
    obtain ⟨k, v⟩ := field
    by_cases hk : k = name
    · simp [setField, hk]
    · have hk' : ¬name = k := fun h => hk h.symm
      by_cases hm : name ∈ rest.map Prod.fst <;>
        simp_all [setField]

end Json

end CampusQuery
