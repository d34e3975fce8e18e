import CampusQuery.Double.Rounding

/-! The text of a double: the fewest digits that read back to it, in positional notation. -/

namespace CampusQuery.Double

open NaturalPower

/-- The positive number `digits * 10 ^ scale`. -/
structure Decimals where
  digits : Nat
  scale : Int

/-- `num / den` as a fraction of the grid of step `10 ^ scale`. -/
def onGrid (num den : Nat) (scale : Int) : Nat × Nat :=
  match scale with
  | .ofNat p => (num, den * 10 ^ p)
  | .negSucc p => (num * 10 ^ (p + 1), den)

/-- The numbers that read as one double: those between `low / den` and `high / den`, with both ends
if they are `closed`. The double itself is `value / den`. -/
structure Interval where
  low : Nat
  value : Nat
  high : Nat
  den : Nat
  closed : Bool

/-- The numbers nearer to `m * 2 ^ e` units than to any other double. Below a power of two the next
double is only half as far away. -/
def interval (m e : Nat) : Interval :=
  let num := 2 ^ (e - 1074)
  { low := (4 * m - if m = 2 ^ (52 : Nat) ∧ e ≠ 0 then 1 else 2) * num
    value := 4 * m * num
    high := (4 * m + 2) * num
    den := 4 * 2 ^ (1074 - e)
    closed := m % 2 = 0 }

/-- The point of the grid of step `10 ^ scale` that is nearest to the double, if it reads back. Of
two points equally near the greater is taken. -/
def Interval.gridPoint? (i : Interval) (scale : Int) : Option Nat :=
  let (value, den) := onGrid i.value i.den scale
  let (low, _) := onGrid i.low i.den scale
  let (high, _) := onGrid i.high i.den scale
  let inside (d : Nat) : Bool :=
    if i.closed then low ≤ d * den && d * den ≤ high else low < d * den && d * den < high
  let below := value / den
  match inside below, inside (below + 1) with
  | true, true => some (if 2 * (value % den) < den then below else below + 1)
  | true, false => some below
  | false, true => some (below + 1)
  | false, false => none

/-- The first hit on grids that get ten times finer at each step. -/
def Interval.search (i : Interval) : Nat → Int → Option Decimals
  | 0, _ => none
  | steps + 1, scale =>
    match i.gridPoint? scale with
    | some d => some ⟨d, scale⟩
    | none => i.search steps (scale - 1)

/-- All digits of `m * 2 ^ e` units. -/
def expansion (m e : Nat) : Decimals :=
  if 1074 ≤ e then ⟨m * 2 ^ (e - 1074), 0⟩ else ⟨m * 5 ^ (1074 - e), -((1074 - e : Nat) : Int)⟩

/-- The decimal with the fewest digits that reads back to `m * 2 ^ e` units, for positive `m`. The
search starts on a grid coarser than the number itself, and seventeen digits always suffice. -/
def shortest (m e : Nat) : Decimals :=
  let bits : Int := (m.log2 + e + 1 : Nat) - 1074
  ((interval m e).search 20 (bits * 30103 / 100000 + 1)).getD (expansion m e)

/-- Positional notation: no exponent, and no point in a whole number. -/
def Decimals.text (d : Decimals) : String :=
  let digits := Nat.toDigits 10 d.digits
  match d.scale with
  | .ofNat p => String.ofList (digits ++ List.replicate p '0')
  | .negSucc p =>
    let padded := List.replicate (p + 2 - digits.length) '0' ++ digits
    let whole := padded.length - (p + 1)
    String.ofList (padded.take whole ++ '.' :: padded.drop whole)

def text : Double → String
  | .nan .. => "NaN"
  | .infinite s => if s then "-inf" else "inf"
  | .finite s m e _ =>
    (if s then "-" else "") ++ if m = 0 then "0" else (shortest m e).text

example : (ofRatio false 805 10).text = "80.5" := by decide +kernel

example : (ofRatio true 1 3).text = "-0.3333333333333333" := by decide +kernel

example : (ofRatio false (2 ^ 70) 1).text = "1180591620717411300000" := by decide +kernel

-- a tie between ...312 and ...313
example : (ofRatio false 1 (2 ^ 25)).text = "0.000000029802322387695313" := by decide +kernel

end CampusQuery.Double
