import Std.Data.ExtTreeMap
import CampusQuery.Binary64.Arithmetic

/-!
# Cells and rows

A cell holds a 64-bit integer, a binary64 number or a text.

Two relations on numbers differ in how they read them. `compare` turns an integer beside a
binary64 number into the nearest binary64 number. `key` reads both exactly: a whole binary64 number
within the range of integers has the key of that integer.
-/

namespace CampusQuery

/-- The value of one field of a row. -/
inductive Cell
  | integer (n : Int64)
  | float (x : Binary64)
  | text (s : String)
  deriving DecidableEq

/-- The cells of a row under the names of their fields. -/
abbrev Row := Std.ExtTreeMap String Cell

/-- The identity of a cell in groups and distinct counts. -/
inductive CellKey
  | integer (n : Int64)
  | float (x : Binary64)
  | text (s : String)
  deriving DecidableEq

namespace CellKey

/-- Which of the three forms a key has. -/
def form : CellKey → Nat
  | integer _ => 0
  | float _ => 1
  | text _ => 2

/-- The number of a key, or its bits. -/
def number : CellKey → Int
  | integer n => n.toInt
  | float x => x.toBits
  | text _ => 0

def string : CellKey → String
  | text s => s
  | _ => ""

/-- An order of keys for look-up tables; it is not the order of the cells. -/
instance : Ord CellKey where
  compare := compareLex (compareOn form) (compareLex (compareOn number) (compareOn string))

instance : Std.TransOrd CellKey :=
  inferInstanceAs
    (Std.TransCmp (compareLex (compareOn form) (compareLex (compareOn number) (compareOn string))))

theorem eq_of_parts {a b : CellKey} (hf : a.form = b.form) (hn : a.number = b.number)
    (hs : a.string = b.string) : a = b := by
  match a, b with
  | integer _, integer _ => exact congrArg integer (Int64.toInt_inj.mp hn)
  | float _, float _ => exact congrArg float (Binary64.toBits_injective (Int.ofNat_inj.mp hn))
  | text _, text _ => exact congrArg text hs
  | integer _, float _ | integer _, text _ => nomatch hf
  | float _, integer _ | float _, text _ => nomatch hf
  | text _, integer _ | text _, float _ => nomatch hf

instance : Std.LawfulEqOrd CellKey where
  eq_of_compare {a b} h := by
    obtain ⟨hf, h⟩ := compareLex_eq_eq.mp h
    obtain ⟨hn, hs⟩ := compareLex_eq_eq.mp h
    exact eq_of_parts (Std.LawfulEqOrd.eq_of_compare hf) (Std.LawfulEqOrd.eq_of_compare hn)
      (Std.LawfulEqOrd.eq_of_compare hs)

end CellKey

namespace Cell

def isNumber : Cell → Bool
  | integer _ | float _ => true
  | text _ => false

/-- The number of a cell, an integer as the nearest binary64 number. -/
def toBinary64? : Cell → Option Binary64
  | integer n => some (.ofInt n.toInt)
  | float x => some x
  | text _ => none

def text? : Cell → Option String
  | text s => some s
  | _ => none

def typeName : Cell → String
  | integer _ => "integer"
  | float _ => "float"
  | text _ => "string"

/-- The whole numbers that an integer cell can hold. -/
def InRange (n : Int) : Prop := Int64.minValue.toInt ≤ n ∧ n ≤ Int64.maxValue.toInt

instance (n : Int) : Decidable (InRange n) := inferInstanceAs (Decidable (_ ∧ _))

/-- The integer cell of a whole number in range. -/
def ofInt? (n : Int) : Option Int64 := if InRange n then some (.ofInt n) else none

def key : Cell → CellKey
  | integer n => .integer n
  | float x =>
    match x.toInt?.bind ofInt? with
    | some n => .integer n
    | none => .float x
  | text s => .text s

/-- The order of cells: numbers by value, texts by code points. A number and a text are level,
and so is a NaN with every number. -/
def compare : Cell → Cell → Ordering
  | integer a, integer b => Ord.compare a.toInt b.toInt
  | text a, text b => Ord.compare a b
  | a, b =>
    match a.toBinary64?, b.toBinary64? with
    | some x, some y => (x.compare? y).getD .eq
    | _, _ => .eq

/-- Equality of two cells of one form, binary64 numbers by value: a NaN agrees with nothing. -/
def agrees : Cell → Cell → Bool
  | integer a, integer b => a = b
  | float x, float y => x.agrees y
  | text a, text b => a = b
  | _, _ => false

end Cell

end CampusQuery
