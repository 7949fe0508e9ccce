import CampusQuery.Json.Basic
import CampusQuery.Binary64.Notation

/-!
# Writing JSON text

A document is written compactly, without any blank, or indented by two blanks a level with a blank
after each colon; an empty array or object is never broken over lines. Only the quote, the
backslash and the control characters are escaped.
-/

namespace CampusQuery.Json

/-- The blanks between the tokens of a written document. -/
structure Layout where
  /-- What stands before an item or closing bracket at the given depth. -/
  lineBreak : Nat → List Char
  /-- What stands between a name and its value. -/
  colon : List Char

namespace Layout

def compact : Layout := ⟨fun _ => [], [':']⟩

def indented : Layout := ⟨fun depth => '\n' :: List.replicate (2 * depth) ' ', [':', ' ']⟩

end Layout

/-- A character of a string as it is written. -/
def writeChar : Char → List Char
  | '"' => ['\\', '"']
  | '\\' => ['\\', '\\']
  | '\x08' => ['\\', 'b']
  | '\x0c' => ['\\', 'f']
  | '\n' => ['\\', 'n']
  | '\r' => ['\\', 'r']
  | '\t' => ['\\', 't']
  | c =>
    if c < ' ' then
      ['\\', 'u', '0', '0', (c.toNat / 16).digitChar, (c.toNat % 16).digitChar]
    else [c]

def writeString (s : String) : List Char := '"' :: s.toList.flatMap writeChar ++ ['"']

def writeInt (n : Int) : List Char :=
  (if n < 0 then ['-'] else []) ++ Nat.toDigits 10 n.natAbs

def Number.write : Number → List Char
  | .integer n => writeInt n
  | .float x => x.finiteText

mutual

/-- The text of a document that starts at the given depth. -/
def write (layout : Layout) (depth : Nat) : Json → List Char
  | .null => ['n', 'u', 'l', 'l']
  | .bool true => ['t', 'r', 'u', 'e']
  | .bool false => ['f', 'a', 'l', 's', 'e']
  | .number n => n.write
  | .string s => writeString s
  | .array [] => ['[', ']']
  | .array (item :: items) =>
    '[' :: (layout.lineBreak (depth + 1) ++ (write layout (depth + 1) item ++
      (writeItems layout (depth + 1) items ++ (layout.lineBreak depth ++ [']']))))
  | .object [] => ['{', '}']
  | .object ((name, value) :: fields) =>
    '{' :: (layout.lineBreak (depth + 1) ++ (writeString name ++ (layout.colon ++
      (write layout (depth + 1) value ++
        (writeFields layout (depth + 1) fields ++ (layout.lineBreak depth ++ ['}']))))))

/-- The items after the first, each behind a comma. -/
def writeItems (layout : Layout) (depth : Nat) : List Json → List Char
  | [] => []
  | item :: items =>
    ',' :: (layout.lineBreak depth ++ (write layout depth item ++ writeItems layout depth items))

/-- The members after the first, each behind a comma. -/
def writeFields (layout : Layout) (depth : Nat) : List (String × Json) → List Char
  | [] => []
  | (name, value) :: fields =>
    ',' :: (layout.lineBreak depth ++ (writeString name ++ (layout.colon ++
      (write layout depth value ++ writeFields layout depth fields))))

end

/-- The text of a document without blanks. -/
def compact (document : Json) : String := .ofList (document.write .compact 0)

/-- The text of a document, a line for each item and member. -/
def pretty (document : Json) : String := .ofList (document.write .indented 0)

end CampusQuery.Json
