import CampusQuery.Double.Rounding

/-! Sum, product and quotient of doubles: the exact result, rounded once. -/

namespace CampusQuery.Double

open NaturalPower

/-- Opposite numbers sum to the positive zero. -/
def add : Double → Double → Double
  | .nan .., _ | _, .nan .. => undefined
  | .infinite s, .infinite t => if s = t then .infinite s else undefined
  | .infinite s, .finite .. | .finite .., .infinite s => .infinite s
  | x@(.finite s ..), y@(.finite t ..) =>
    let sum := x.position + y.position
    if sum = 0 then (if s && t then negativeZero else zero)
    else ofUnits (decide (sum < 0)) sum.natAbs 1

def mul : Double → Double → Double
  | .nan .., _ | _, .nan .. => undefined
  | .infinite s, .infinite t => .infinite (s != t)
  | .infinite s, .finite t m .. | .finite s m .., .infinite t =>
    if m = 0 then undefined else .infinite (s != t)
  | .finite s m e _, .finite t n f _ => ofUnits (s != t) (m * n * 2 ^ (e + f)) unitsPerOne

def div : Double → Double → Double
  | .nan .., _ | _, .nan .. => undefined
  | .infinite _, .infinite _ => undefined
  | .infinite s, .finite t .. => .infinite (s != t)
  | .finite s .., .infinite t => if s = t then zero else negativeZero
  | .finite s m e _, .finite t n f _ =>
    if n = 0 then (if m = 0 then undefined else .infinite (s != t))
    else ofUnits (s != t) (m * 2 ^ e * unitsPerOne) (n * 2 ^ f)

/-- The sum of a list, added from the left. -/
def sum (xs : List Double) : Double := xs.foldl add zero

/-- The number with at most two decimal places nearest to `x`, a half going away from zero. A number
too large to have places, or whose hundredfold is no number, stays as it is. -/
def roundToCents (x : Double) : Double :=
  let hundredfold := x.mul (ofNat 100)
  -- from here on every double is a whole number
  if !hundredfold.isFinite || 2 ^ (52 : Nat) * unitsPerOne ≤ hundredfold.magnitude then x
  else
    let cents : Nat := (2 * hundredfold.magnitude + unitsPerOne) / (2 * unitsPerOne)
    (ofInt (if hundredfold.isNegative then -(cents : Int) else cents)).div (ofNat 100)

end CampusQuery.Double
