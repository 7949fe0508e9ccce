import CampusQuery.PowerOfTen
import CampusQuery.Binary64.Arithmetic

/-!
# The fewest decimal digits that read back

A decimal reads back as a magnitude if rounding it gives that magnitude again. `shortest` tries
one digit, two digits and so on: on each grid of decimals only the two neighbours of the exact
value are candidates, the nearer one first. Seventeen digits always suffice.
-/

namespace CampusQuery.Binary64

/-- The decimal `coefficient · 10 ^ exponent`. -/
structure Digits where
  coefficient : Nat
  exponent : Int
  deriving DecidableEq, Repr

namespace Digits

/-- The decimal as a quotient of two whole numbers. -/
def ratio (d : Digits) : Nat × Nat :=
  if 0 ≤ d.exponent then (d.coefficient * pow10 d.exponent.toNat, 1)
  else (d.coefficient, pow10 d.exponent.natAbs)

/-- The magnitude of the nearest binary64 number. -/
def magnitude (d : Digits) : Nat := roundUnits (d.ratio.1 * one) d.ratio.2

end Digits

/-- The decimal exponent of a positive value: the greatest `e` with `10 ^ e` at most the value. -/
def decimalExponent (magnitude : Nat) : Int :=
  let u := unitsOf magnitude
  if one ≤ u then (Nat.toDigits 10 (u / one)).length - 1
  else -((List.range 325).find? (fun e => one ≤ u * pow10 e)).getD 0

/-- The candidates on the grid of multiples of `10 ^ exponent`: the nearest multiple, then the
multiples just below and just above. -/
def candidates (tie : Tie) (magnitude : Nat) (exponent : Int) : List Digits :=
  let u := unitsOf magnitude
  let num := if 0 ≤ exponent then u else u * pow10 exponent.natAbs
  let den := if 0 ≤ exponent then one * pow10 exponent.toNat else one
  [⟨divRound tie num den, exponent⟩, ⟨num / den, exponent⟩, ⟨num / den + 1, exponent⟩]

/-- The shortest decimal that reads back as a positive finite magnitude, the nearest one if there
are several, and as `tie` says if two are equally near. The first grid is coarser than the value,
which may lie just below a power of ten. -/
def shortest (tie : Tie) (magnitude : Nat) : Digits :=
  let top := decimalExponent magnitude
  let onGrid (k : Nat) := (candidates tie magnitude (top + 1 - k)).find? (·.magnitude = magnitude)
  ((List.range 18).findSome? onGrid).getD ⟨0, 0⟩

end CampusQuery.Binary64
