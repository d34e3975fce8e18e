import CampusQuery.Decimal.Arithmetic
import CampusQuery.Decimal.OfDouble
import CampusQuery.Distinct
import CampusQuery.Row
import CampusQuery.Transformation.Basic

/-! Values of reductions. Sums and averages are computed in decimals, so that tenths add up. Where
a number or a sum has no place among the decimals, the numbers are added as doubles. -/

namespace CampusQuery

inductive Total where
  | exact (sum : Decimal)
  | rounded (sum : Double)

namespace Total

def decimalSum? (xs : List Double) : Option Decimal := do
  let ds ← xs.mapM Decimal.ofDouble?
  Decimal.sum? ds

def of (xs : List Double) : Total :=
  match decimalSum? xs with
  | some sum => exact sum
  | none => rounded (Double.sum xs)

def toDouble : Total → Double
  | exact sum => sum.roundToCents.toDouble
  | rounded sum => sum.roundToCents

/-- The share of each of `count` rows. -/
def mean (count : Nat) : Total → Double
  | exact sum => (sum.divNat count).roundToCents.toDouble
  | rounded sum => (sum.div (Double.ofNat count)).roundToCents

end Total

namespace Reduction

/-- The value for the cells of one field in a group of `size` rows. Only a count exists without any
number. -/
def ofCells (r : Reduction) (size : Nat) (cells : List Cell) : Option Cell :=
  match r, cells.filterMap Cell.number? with
  | count, _ => some (.number (Double.ofNat (distinctCount cells)))
  | _, [] => none
  | max, x :: xs => some (.number (xs.foldl Double.max x))
  | min, x :: xs => some (.number (xs.foldl Double.min x))
  | sum, xs => some (.number (Total.of xs).toDouble)
  | avg, xs => some (.number ((Total.of xs).mean size))

/-- The value for a group of rows. Cells that a row lacks do not count. -/
def ofGroup (r : Reduction) (index : Nat) (group : List Row) : Option Cell :=
  r.ofCells group.length (group.filterMap (·[index]?))

end Reduction

end CampusQuery
