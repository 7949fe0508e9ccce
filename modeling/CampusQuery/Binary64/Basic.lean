/-!
# Binary64 numbers

A binary64 number is a sign and a magnitude, the other 63 bits read as one number: eleven bits of
exponent above 52 bits of fraction. Larger magnitudes are larger numbers, up to the infinity; the
magnitudes beyond the infinity are the NaNs.

Every finite number is a whole multiple of 2⁻¹⁰⁷⁴, so `units` is its exact value counted in that
unit. Numbers are compared by it; an infinity counts as 2¹⁰²⁴, which no finite number reaches.
-/

namespace CampusQuery

/-- A number in the binary64 format, kept bit for bit. -/
structure Binary64 where
  negative : Bool
  magnitude : Fin (1 <<< 63)
  deriving DecidableEq, Repr

namespace Binary64

/-- The weight of the exponent within a magnitude. -/
def exponentStep : Nat := 1 <<< 52

/-- The magnitude of the infinities. -/
def infinite : Nat := 2047 * exponentStep

/-- How many units make one. -/
def one : Nat := 1 <<< 1074

theorem one_pos : 0 < one := by
  rw [one, Nat.one_shiftLeft]
  exact Nat.two_pow_pos 1074

theorem infinite_lt : infinite < 1 <<< 63 := by decide

def isNaN (x : Binary64) : Bool := infinite < x.magnitude

def isInfinite (x : Binary64) : Bool := x.magnitude.val = infinite

def isFinite (x : Binary64) : Bool := x.magnitude < infinite

def isZero (x : Binary64) : Bool := x.magnitude.val = 0

def signedZero (negative : Bool) : Binary64 := ⟨negative, ⟨0, by decide⟩⟩

def zero : Binary64 := signedZero false

def infinity (negative : Bool) : Binary64 := ⟨negative, ⟨infinite, infinite_lt⟩⟩

/-- The NaN that arithmetic gives. -/
def nan : Binary64 := ⟨false, ⟨infinite + 1 <<< 51, by decide⟩⟩

def neg (x : Binary64) : Binary64 := ⟨!x.negative, x.magnitude⟩

/-- The 64 bits as one number. -/
def toBits (x : Binary64) : Nat := (if x.negative then 1 <<< 63 else 0) + x.magnitude

theorem toBits_injective {x y : Binary64} (h : x.toBits = y.toBits) : x = y := by
  obtain ⟨xn, xm⟩ := x
  obtain ⟨yn, ym⟩ := y
  have := xm.isLt
  have := ym.isLt
  cases xn <;> cases yn <;> simp only [toBits, Bool.false_eq_true, ↓reduceIte] at h <;>
    simp only [mk.injEq, Fin.ext_iff, true_and, reduceCtorEq, false_and] <;> omega

/-- The value of a magnitude, in units. The least exponent is shared by the numbers without and
with the leading one. -/
def unitsOf (magnitude : Nat) : Nat :=
  let exponent := magnitude / exponentStep
  let fraction := magnitude % exponentStep
  (if exponent = 0 then fraction else exponentStep + fraction) <<< (exponent - 1)

/-- The exact value, in units. -/
def units (x : Binary64) : Int :=
  if x.negative then -(unitsOf x.magnitude : Int) else unitsOf x.magnitude

/-- The exact value of a number that is whole. -/
def toInt? (x : Binary64) : Option Int :=
  if x.isFinite ∧ x.units % one = 0 then some (x.units / one) else none

/-- The order of two numbers, if neither is a NaN. -/
def compare? (x y : Binary64) : Option Ordering :=
  if x.isNaN || y.isNaN then none else some (compare x.units y.units)

/-- Equality of values: the two zeros agree, and a NaN agrees with nothing. -/
def agrees (x y : Binary64) : Bool := x.compare? y = some .eq

theorem compare?_eq_some {x y : Binary64} (hx : x.isNaN = false) (hy : y.isNaN = false) :
    x.compare? y = some (compare x.units y.units) := by
  simp [compare?, hx, hy]

theorem units_neg (x : Binary64) : x.neg.units = -x.units := by
  cases h : x.negative <;> simp [neg, units, h]

end Binary64

end CampusQuery
