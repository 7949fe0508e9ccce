import CampusQuery.Json.Token

/-!
# Reading JSON text

The tokens are read one by one against a stack of the arrays and objects that are still open.
At most 127 may be open at a time. A text holds exactly one document.
-/

namespace CampusQuery.Json

/-- An array or object that is still open: its items so far, last one first, or its members so
far and the name that waits for its value. -/
inductive Frame
  | array (items : List Json)
  | object (fields : List (String × Json)) (name : String)

/-- What may come next. -/
inductive Reader
  /-- A document. -/
  | value (stack : List Frame)
  /-- The first item of an array, or its end. -/
  | item (stack : List Frame)
  /-- The first name of an object, or its end. -/
  | member (stack : List Frame)
  /-- The name of a further member. -/
  | name (fields : List (String × Json)) (stack : List Frame)
  /-- The colon after a name. -/
  | colon (fields : List (String × Json)) (name : String) (stack : List Frame)
  /-- What follows a finished document: more of the innermost container, or nothing. -/
  | finished (value : Json) (stack : List Frame)

namespace Reader

/-- How many arrays and objects may be open at a time. -/
def maxDepth : Nat := 127

/-- Enters a container, unless too many are open. -/
def enter? (stack : List Frame) (reader : Reader) : Option Reader :=
  if stack.length < maxDepth then some reader else none

/-- Takes a token where a document must start. -/
def start? (stack : List Frame) : Token → Option Reader
  | .null => some (.finished .null stack)
  | .bool b => some (.finished (.bool b) stack)
  | .number n => some (.finished (.number n) stack)
  | .string s => some (.finished (.string s) stack)
  | .openArray => enter? stack (.item stack)
  | .openObject => enter? stack (.member stack)
  | _ => none

/-- Takes a token after a finished document. -/
def continue? (value : Json) : List Frame → Token → Option Reader
  | .array items :: stack, .comma => some (.value (.array (value :: items) :: stack))
  | .array items :: stack, .closeArray =>
    some (.finished (.array (value :: items).reverse) stack)
  | .object fields key :: stack, .comma => some (.name (setField key value fields) stack)
  | .object fields key :: stack, .closeObject =>
    some (.finished (.object (setField key value fields)) stack)
  | _, _ => none

def step? : Reader → Token → Option Reader
  | .value stack, token => start? stack token
  | .item stack, .closeArray => some (.finished (.array []) stack)
  | .item stack, token => start? (.array [] :: stack) token
  | .member stack, .closeObject => some (.finished (.object []) stack)
  | .member stack, .string key => some (.colon [] key stack)
  | .member _, _ => none
  | .name fields stack, .string key => some (.colon fields key stack)
  | .name _ _, _ => none
  | .colon fields key stack, .colon => some (.value (.object fields key :: stack))
  | .colon _ _ _, _ => none
  | .finished document stack, token => continue? document stack token

/-- Takes tokens one after another. -/
def run? (reader : Reader) : List Token → Option Reader
  | [] => some reader
  | token :: tokens =>
    match reader.step? token with
    | none => none
    | some next => next.run? tokens

/-- The document of a reader that may stop here. -/
def document? : Reader → Option Json
  | .finished document [] => some document
  | _ => none

end Reader

/-- The document that a text holds. -/
def read? (text : String) : Option Json := do
  let tokens ← Token.scanAll [] text.toList
  let reader ← (Reader.value []).run? tokens
  reader.document?

end CampusQuery.Json
