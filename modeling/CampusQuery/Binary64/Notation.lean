import CampusQuery.Binary64.Shortest

/-!
# Written form of a binary64 number

A finite number is written with the fewest digits that read back. Near one they are written
positionally, with at least one digit after the point; far from it with one digit before the
point and an exponent.
-/

namespace CampusQuery.Binary64

/-- How a finite number is laid out. -/
structure Layout where
  /-- The least decimal exponent that is written positionally. -/
  least : Int
  /-- The greatest decimal exponent that is written positionally. -/
  greatest : Int
  /-- Which of two equally near shortest decimals is written. -/
  tie : Tie

/-- Numbers from 0.00001 up to below 10¹⁶ are written positionally; a tie goes to the even last
digit. -/
def layout : Layout := ⟨-5, 15, .toEven⟩

/-- Writes digits whose first one has the weight `10 ^ top`. -/
def Layout.write (layout : Layout) (digits : List Char) (top : Int) : List Char :=
  if layout.least ≤ top ∧ top ≤ layout.greatest then
    if 0 ≤ top then
      let whole := (top + 1).toNat
      let fraction := digits.drop whole
      digits.take whole ++ List.replicate (whole - digits.length) '0' ++
        '.' :: (if fraction.isEmpty then ['0'] else fraction)
    else '0' :: '.' :: List.replicate (-top - 1).toNat '0' ++ digits
  else
    let fraction := digits.drop 1
    digits.take 1 ++ (if fraction.isEmpty then [] else '.' :: fraction) ++
      'e' :: (if 0 ≤ top then '+' else '-') :: Nat.toDigits 10 top.natAbs

/-- The text of a finite number. -/
def finiteText (x : Binary64) : List Char :=
  let sign := if x.negative then ['-'] else []
  if x.isZero then sign ++ ['0', '.', '0']
  else
    let decimal := shortest layout.tie x.magnitude
    let digits := Nat.toDigits 10 decimal.coefficient
    sign ++ layout.write digits (decimal.exponent + digits.length - 1)

/-- The text of any number, the infinities and NaN by name. -/
def text (x : Binary64) : List Char :=
  if x.isNaN then ['N', 'a', 'N']
  else if x.isInfinite then (if x.negative then ['-'] else []) ++ ['i', 'n', 'f']
  else x.finiteText

end CampusQuery.Binary64
