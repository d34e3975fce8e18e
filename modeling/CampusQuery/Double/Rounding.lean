import CampusQuery.Double.Basic

/-! Every operation on `Double` works on exact numbers and rounds once, here: to the nearest double,
and of two equally near ones to the one with the even significand. -/

namespace CampusQuery

open NaturalPower

/-- The whole number nearest to `num / den`; a half goes to the even neighbour. -/
def roundHalfEven (num den : Nat) : Nat :=
  let q := num / den
  let r := num % den
  if 2 * r < den then q else if den < 2 * r then q + 1 else q + q % 2

namespace Double

/-- The double nearest to `num / den` units; a magnitude past the last double is infinite. -/
def ofUnits (negative : Bool) (num den : Nat) : Double :=
  let e := (num / den).log2 - 52
  let m := roundHalfEven num (den * 2 ^ e)
  -- rounding up may need one bit more
  let (m, e) := if m = 2 ^ (53 : Nat) then (2 ^ (52 : Nat), e + 1) else (m, e)
  if h : Canonical m e then .finite negative m e h else .infinite negative

/-- The double nearest to `num / den`. -/
def ofRatio (negative : Bool) (num den : Nat) : Double := ofUnits negative (num * unitsPerOne) den

def ofInt (n : Int) : Double := ofRatio (decide (n < 0)) n.natAbs 1

def ofNat (n : Nat) : Double := ofRatio false n 1

end Double

end CampusQuery
