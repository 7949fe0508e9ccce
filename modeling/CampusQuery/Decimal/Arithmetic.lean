import CampusQuery.Decimal.Basic

/-!
# Decimal sums and quotients

A sum is exact whenever the aligned result fits. Otherwise its last places are rounded away, a
half to the even neighbour, as few of them as make it fit. A quotient keeps as many places as fit.
-/

namespace CampusQuery.Decimal

/-- Rounds away as few places as make the coefficient fit. -/
def fit? (coefficient : Int) (places : Nat) : Option Decimal :=
  (List.range (places + 1)).findSome? fun k =>
    of? (divPow10 .toEven coefficient k) (places - k)

/-- The coefficient of a decimal written with more places. -/
def scaled (d : Decimal) (places : Nat) : Int := d.coefficient * pow10 (places - d.places)

/-- The sum, at the greater of the two numbers of places if that fits. Zero is neutral: adding it
changes no number of places. -/
def add? (a b : Decimal) : Option Decimal :=
  if a.coefficient = 0 then some b
  else if b.coefficient = 0 then some a
  else
    let places := max a.places b.places
    fit? (a.scaled places + b.scaled places) places

/-- The decimal without the zeros at the end of its places. -/
def trimmed (coefficient : Int) : (places : Nat) → Int × Nat
  | 0 => (coefficient, 0)
  | places + 1 =>
    if coefficient % 10 = 0 then trimmed (coefficient / 10) places else (coefficient, places + 1)

/-- The quotient by a positive whole number. A quotient that ends within the decimal's own places
keeps them. Any other gets the most places at which its whole part fits and is rounded there, a
half to the even neighbour; zeros at the end are then dropped. -/
def divNat? (d : Decimal) (n : Nat) : Option Decimal :=
  if d.coefficient = 0 then some zero
  else if d.coefficient % n = 0 then of? (d.coefficient / n) d.places
  else
    let size := d.coefficient.natAbs
    (List.range (maxPlaces + 1)).findSome? fun k =>
      let places := maxPlaces - k
      if places < d.places then none
      else
        let quotient := divRound .toEven (size * pow10 (places - d.places)) n
        let signed : Int := if d.coefficient < 0 then -quotient else quotient
        let (coefficient, kept) := trimmed signed places
        if quotient < capacity then of? coefficient kept else none

end CampusQuery.Decimal
