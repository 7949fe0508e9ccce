import Std.Data.ExtTreeSet
import CampusQuery.Decimal.Conversion
import CampusQuery.Plan

/-!
# Aggregates of cells

The greatest and least number of a list are members of it. Sums and means are taken in decimals
and rounded once, to two places. Where decimals do not suffice they are taken in binary64
arithmetic instead.
-/

namespace CampusQuery.Aggregate

/-- How many places a sum or mean keeps. -/
def places : Nat := 2

/-- The number that no later one beats: a number replaces the best one so far if comparing the two
gives `wanted`. Without any number it is zero. -/
def extremum (wanted : Ordering) (cells : List Cell) : Cell :=
  let better (best : Option Cell) (cell : Cell) : Option Cell :=
    match best with
    | some old => if cell.compare old = wanted then some cell else some old
    | none => some cell
  ((cells.filter Cell.isNumber).foldl better none).getD (.integer 0)

/-- The sum in decimals, if every cell and every partial sum is one. -/
def decimalSum? (cells : List Cell) : Option Decimal :=
  cells.foldlM (fun total cell => do total.add? (← Decimal.ofCell? cell)) Decimal.zero

/-- The sum in binary64 arithmetic; texts count for nothing. An empty sum is minus zero, which is
neutral. -/
def binarySum (cells : List Cell) : Binary64 :=
  (cells.filterMap Cell.toBinary64?).foldl (· + ·) (-.zero)

/-- A binary64 number rounded to two places. -/
def roundBinary (x : Binary64) : Cell :=
  let scale := Binary64.ofNat (pow10 places)
  .float ((x * scale).round / scale)

def roundDecimal (d : Decimal) : Cell := (d.roundTo places).toCell

def sumOf (cells : List Cell) : Cell :=
  match decimalSum? cells with
  | some total => roundDecimal total
  | none => roundBinary (binarySum cells)

def meanOf (cells : List Cell) : Cell :=
  if cells.isEmpty then .integer 0
  else
    match (decimalSum? cells).bind (·.divNat? cells.length) with
    | some mean => roundDecimal mean
    | none => roundBinary (binarySum cells / .ofNat cells.length)

/-- How many cells are pairwise different. -/
def distinct (cells : List Cell) : Nat := (Std.ExtTreeSet.ofList (cells.map Cell.key)).size

/-- The aggregate of a list of cells. -/
def eval (aggregate : Aggregate) (cells : List Cell) : Cell :=
  match aggregate with
  | max => extremum .gt cells
  | min => extremum .lt cells
  | avg => meanOf cells
  | sum => sumOf cells
  | count => .integer (.ofNat (distinct cells))

end CampusQuery.Aggregate
