import CampusQuery.Cell
import CampusQuery.Binary64.Shortest
import CampusQuery.Decimal.Arithmetic

/-!
# Cells as decimals

An integer is a decimal exactly. A binary64 number stands for the shortest decimal that reads
back, so that `0.1` becomes a tenth, or for its bits if that decimal does not fit. A decimal becomes
an integer cell if it is whole and fits, and a binary64 number otherwise.
-/

namespace CampusQuery

namespace Decimal

/-- The decimal of signed digits. Places beyond the last one are rounded away, a half upwards in
size. -/
def ofDigits? (negative : Bool) (d : Binary64.Digits) : Option Decimal :=
  let signed (n : Nat) : Int := if negative then -n else n
  if 0 ≤ d.exponent then of? (signed (d.coefficient * pow10 d.exponent.toNat)) 0
  else
    let places := d.exponent.natAbs
    if places ≤ maxPlaces then of? (signed d.coefficient) places
    else
      of? (signed (divRound .awayFromZero d.coefficient (pow10 (places - maxPlaces)))) maxPlaces

/-- The number `bits · 2 ^ exponent`. The bits are doubled while there is room for one more; after
that a power of two is taken as ten fifths, and what the division by five leaves over is lost. -/
def scaleBits (bits : Nat) : (exponent : Nat) → Nat
  | 0 => bits
  | exponent + 1 =>
    if 2 * bits < capacity then scaleBits (2 * bits) exponent
    else 10 * scaleBits (bits / 5) exponent

/-- The decimal of the significand and the exponent of a number. Numbers with a negative exponent
have digits that fit, and are not looked at. -/
def ofBits? (x : Binary64) : Option Decimal :=
  let exponent := x.magnitude / Binary64.exponentStep
  let fraction := x.magnitude % Binary64.exponentStep
  if exponent < 1075 then none
  else
    let size := scaleBits (Binary64.exponentStep + fraction) (exponent - 1075)
    of? (if x.negative then -(size : Int) else size) 0

/-- The decimal of a finite binary64 number that fits, by its digits or else by its bits. -/
def ofBinary64? (x : Binary64) : Option Decimal :=
  if x.isZero then some zero
  else if x.isFinite then
    (ofDigits? x.negative (Binary64.shortest .awayFromZero x.magnitude)).or (ofBits? x)
  else none

/-- The decimal of a number that fits. -/
def ofCell? : Cell → Option Decimal
  | .integer n => ofInt? n.toInt
  | .float x => ofBinary64? x
  | .text _ => none

/-- A binary64 number near the decimal: the nearest one to a whole number; otherwise the whole part
and the fraction are joined in binary64 arithmetic and the sum is rounded to the places. -/
def toBinary64 (d : Decimal) : Binary64 :=
  let size := d.coefficient.natAbs
  let power := pow10 d.places
  let whole := Binary64.ofNat (size / power)
  let value :=
    if size % power = 0 then whole
    else
      let scale := Binary64.ofNat power
      ((whole + Binary64.ofNat (size % power) / scale) * scale).round / scale
  if d.coefficient < 0 then -value else value

def toCell (d : Decimal) : Cell :=
  match d.toInt?.bind Cell.ofInt? with
  | some n => .integer n
  | none => .float d.toBinary64

end Decimal

end CampusQuery
