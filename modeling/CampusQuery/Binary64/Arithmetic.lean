import CampusQuery.Rounding
import CampusQuery.Binary64.Basic

/-!
# Binary64 arithmetic

Every operation takes the exact result, a quotient of two whole numbers of units, and rounds it
once: `roundUnits` finds the nearest magnitude, and a tie goes to the even one.
-/

namespace CampusQuery.Binary64

/-- The magnitude nearest to `num / den` units. The exponent is chosen so that the rounded
quotient keeps 53 bits; a carry out of them moves to the next exponent by itself. -/
def roundUnits (num den : Nat) : Nat :=
  let exponent := (num / den).log2 - 52
  min infinite (exponent * exponentStep + divRound .toEven num (den <<< exponent))

theorem roundUnits_lt (num den : Nat) : roundUnits num den < 1 <<< 63 :=
  Nat.lt_of_le_of_lt (Nat.min_le_left _ _) infinite_lt

/-- The number nearest to `num / den` units. -/
def ofUnits (negative : Bool) (num den : Nat) : Binary64 :=
  ⟨negative, ⟨roundUnits num den, roundUnits_lt num den⟩⟩

/-- The number nearest to `num / den`. -/
def ofRatio (negative : Bool) (num den : Nat) : Binary64 :=
  ofUnits negative (num * one) den

/-- The number nearest to a whole number. -/
def ofInt (n : Int) : Binary64 := ofRatio (n < 0) n.natAbs 1

def ofNat (n : Nat) : Binary64 := ofRatio false n 1

def add (x y : Binary64) : Binary64 :=
  if x.isNaN || y.isNaN then nan
  else if x.isInfinite then
    if y.isInfinite && x.negative != y.negative then nan else x
  else if y.isInfinite then y
  else
    let sum := x.units + y.units
    if sum = 0 then signedZero (x.negative && y.negative)
    else ofUnits (sum < 0) sum.natAbs 1

def mul (x y : Binary64) : Binary64 :=
  let negative := x.negative != y.negative
  if x.isNaN || y.isNaN then nan
  else if x.isInfinite || y.isInfinite then
    if x.isZero || y.isZero then nan else infinity negative
  else ofUnits negative (x.units.natAbs * y.units.natAbs) one

def div (x y : Binary64) : Binary64 :=
  let negative := x.negative != y.negative
  if x.isNaN || y.isNaN then nan
  else if x.isInfinite then
    if y.isInfinite then nan else infinity negative
  else if y.isInfinite then signedZero negative
  else if y.isZero then
    if x.isZero then nan else infinity negative
  else ofUnits negative (x.units.natAbs * one) y.units.natAbs

/-- The nearest whole number, a half going away from zero; the sign is kept. -/
def round (x : Binary64) : Binary64 :=
  if x.isFinite then
    ofUnits x.negative (divRound .awayFromZero x.units.natAbs one * one) 1
  else x

instance : Add Binary64 := ⟨add⟩
instance : Mul Binary64 := ⟨mul⟩
instance : Div Binary64 := ⟨div⟩
instance : Neg Binary64 := ⟨neg⟩

end CampusQuery.Binary64
