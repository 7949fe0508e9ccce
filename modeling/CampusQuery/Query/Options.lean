import CampusQuery.Query.Transformations

/-!
# Options of a query

`OPTIONS` lists the columns that are shown and may order the rows by some of them or by apply keys.
The members are first checked, and read once the whole query has been checked.
-/

namespace CampusQuery.Query

/-- The strings of `COLUMNS`. -/
def columnNames (members : List (String × Json)) : Except Defect (List String) :=
  match Json.fieldOf? "COLUMNS" members with
  | some (.array items) => items.mapM (requireString .columns)
  | _ => .error (.notNonEmptyArray .columns)

/-- Checks a column. Once rows are grouped, only group fields and apply keys are left to show. -/
def checkColumn (dataset : Descriptor) (keys : ApplyKeys) (group : Option (List String))
    (reference : String) : Except Defect Unit := do
  let column ← resolveColumn dataset keys .columns reference
  match group, column with
  | some group, .field name =>
    if name ∈ group then return () else .error (.ungroupedColumn reference)
  | _, _ => return ()

/-- Checks an order key, which must be a column that is shown or an apply key. -/
def checkOrderKey (keys : ApplyKeys) (shown : List String) (reference : String) :
    Except Defect Unit :=
  if reference ∈ shown ∨ reference ∈ keys then .ok () else .error (.orderKeyNotShown reference)

/-- Checks an item of the keys of an order. -/
def checkOrderItem (keys : ApplyKeys) (shown : List String) (item : Json) :
    Except Defect Unit := do
  let reference ← requireString .orderKeys item
  checkOrderKey keys shown reference

def readDirection (members : List (String × Json)) : Except Defect Direction :=
  match Json.fieldOf? "dir" members with
  | some (.string "UP") => .ok .up
  | some (.string "DOWN") => .ok .down
  | _ => .error .unknownDirection

def readOrderItems (members : List (String × Json)) : Except Defect (List Json) :=
  match Json.fieldOf? "keys" members with
  | some (.array []) => .error (.notNonEmptyArray .orderKeys)
  | some (.array items) => .ok items
  | _ => .error (.notNonEmptyArray .orderKeys)

/-- Checks the order. -/
def checkOrder (dataset : Descriptor) (keys : ApplyKeys) (shown : List String) :
    Option Json → Except Defect Unit
  | none | some .null => .ok ()
  | some (.string reference) => do
    checkOrderKey keys shown reference
    let _ ← resolveColumn dataset keys .order reference
  | some (.object members) => do
    checkKeys .order ["dir", "keys"] members
    let _ ← readDirection members
    let items ← readOrderItems members
    let _ ← items.mapM (checkOrderItem keys shown)
  | some _ => .error .orderType

/-- Checks the members of `OPTIONS` beside those of `TRANSFORMATIONS`, if there are any. -/
def checkOptions (dataset : Descriptor) (keys : ApplyKeys)
    (grouping : Option (List (String × Json))) (members : List (String × Json)) :
    Except Defect Unit := do
  checkKeys .options ["COLUMNS", "ORDER"] members
  let shown ← columnNames members
  let group ← grouping.mapM (readGroup dataset)
  let _ ← shown.mapM (checkColumn dataset keys group)
  checkOrder dataset keys shown (Json.fieldOf? "ORDER" members)

/-- Reads the column that an item refers to. -/
def readColumn (dataset : Descriptor) (keys : ApplyKeys) (part : Part) (item : Json) :
    Except Defect Column := do
  let reference ← requireString part item
  resolveColumn dataset keys part reference

/-- Reads the columns. -/
def readColumns (dataset : Descriptor) (keys : ApplyKeys) (members : List (String × Json)) :
    Except Defect (List Column) :=
  match Json.fieldOf? "COLUMNS" members with
  | some (.array items) => items.mapM (readColumn dataset keys .columns)
  | _ => .error (.notNonEmptyArray .columns)

/-- Reads the keys of an order that is an object. -/
def readOrderKeys (dataset : Descriptor) (keys : ApplyKeys) (members : List (String × Json)) :
    Except Defect (List Column) :=
  match Json.fieldOf? "keys" members with
  | some (.array items) => items.mapM (readColumn dataset keys .order)
  | _ => .error (.notNonEmptyArray .orderKeys)

/-- Reads the order. A lone string is one key, upwards. -/
def readOrder (dataset : Descriptor) (keys : ApplyKeys) :
    Option Json → Except Defect (Option Order)
  | none | some .null => .ok none
  | some (.string reference) => do
    let column ← readColumn dataset keys .order (.string reference)
    return some ⟨.up, [column]⟩
  | some (.object members) => do
    let direction ← readDirection members
    let columns ← readOrderKeys dataset keys members
    return some ⟨direction, columns⟩
  | some _ => .error .orderType

/-- Reads the members of `OPTIONS`. -/
def readOptions (dataset : Descriptor) (keys : ApplyKeys) (members : List (String × Json)) :
    Except Defect (List Column × Option Order) := do
  let columns ← readColumns dataset keys members
  let order ← readOrder dataset keys (Json.fieldOf? "ORDER" members)
  return (columns, order)

end CampusQuery.Query
