import CampusQuery.PowerOfTen
import CampusQuery.Rounding

/-!
# Decimals of bounded precision

A decimal is `coefficient / 10 ^ places`. The coefficient has 96 bits and there are at most 28
places; a result that fits neither is refused, never wrapped.
-/

namespace CampusQuery

/-- The coefficients below this size fit. -/
def Decimal.capacity : Nat := 1 <<< 96

/-- The greatest number of decimal places. -/
def Decimal.maxPlaces : Nat := 28

/-- The number `coefficient / 10 ^ places`. -/
structure Decimal where
  coefficient : Int
  places : Nat
  coefficient_lt : coefficient.natAbs < Decimal.capacity
  places_le : places ≤ Decimal.maxPlaces
  deriving DecidableEq

namespace Decimal

/-- The decimal with a given coefficient and number of places, if it fits. -/
def of? (coefficient : Int) (places : Nat) : Option Decimal :=
  if h : coefficient.natAbs < capacity ∧ places ≤ maxPlaces then
    some ⟨coefficient, places, h.1, h.2⟩
  else none

/-- A whole number, if it fits. -/
def ofInt? (n : Int) : Option Decimal := of? n 0

def zero : Decimal := ⟨0, 0, by decide, by decide⟩

/-- A whole number rounded to nearest after division by `10 ^ k`, with its sign kept. -/
def divPow10 (tie : Tie) (n : Int) (k : Nat) : Int :=
  if n < 0 then -(divRound tie n.natAbs (pow10 k) : Int) else divRound tie n.natAbs (pow10 k)

theorem natAbs_divPow10 (tie : Tie) (n : Int) (k : Nat) :
    (divPow10 tie n k).natAbs = divRound tie n.natAbs (pow10 k) := by
  unfold divPow10
  split <;> omega

/-- Rounds to the given number of places, a half going away from zero; fewer places are kept as
they are. -/
def roundTo (d : Decimal) (places : Nat) : Decimal :=
  if h : places < d.places then
    { coefficient := divPow10 .awayFromZero d.coefficient (d.places - places)
      places := places
      coefficient_lt := by
        rw [natAbs_divPow10]
        exact Nat.lt_of_le_of_lt (divRound_le_self _ (two_le_pow10 (Nat.sub_pos_of_lt h)))
          d.coefficient_lt
      places_le := Nat.le_trans (Nat.le_of_lt h) d.places_le }
  else d

theorem of?_eq_some {coefficient : Int} {places : Nat} (hc : coefficient.natAbs < capacity)
    (hp : places ≤ maxPlaces) :
    of? coefficient places = some ⟨coefficient, places, hc, hp⟩ := by
  simp [of?, hc, hp]

/-- The exact value of a decimal that is whole. -/
def toInt? (d : Decimal) : Option Int :=
  if d.coefficient % pow10 d.places = 0 then some (d.coefficient / pow10 d.places) else none

end Decimal

end CampusQuery
