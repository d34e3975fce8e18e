import CampusQuery.Decimal.Basic

/-! Conversion of doubles to decimals. `m` units of a binary exponent are written as `m` with a
decimal exponent and a count of fives, and the fives are worked off one at a time. Low bits are
dropped where 96 are not enough; what is left is cut to 28 places and below `2 ^ 52`. So the result
can be off in its last digits. -/

namespace CampusQuery.Decimal

open NaturalPower

/-- Works off the fives of `m * 5 ^ fives / 10 ^ places`. A five is half a ten: an even `m` is
halved and gives up a place, an odd one is multiplied, or loses its last bit for want of room. -/
def multiplyFives : (fives m places : Nat) → Nat × Nat
  | 0, m, places => (m, places)
  | f + 1, m, places =>
    if m % 2 = 0 then multiplyFives f (m / 2) (places - 1)
    else if 5 * m < coefficientLimit then multiplyFives f (5 * m) places
    else multiplyFives f (m / 2) (places - 1)

/-- Drops places past the 28th, one at a time, each time rounding a five up. -/
def capScale : (places m : Nat) → Nat × Nat
  | 0, m => (m, 0)
  | p + 1, m =>
    if p + 1 ≤ maxScale then (m, p + 1)
    else if m / 10 = 0 then (0, 0)
    else capScale p (m / 10 + if 5 ≤ m % 10 then 1 else 0)

/-- Drops places, one at a time, until `m` is below `2 ^ 52`. -/
def capDigits : (places m : Nat) → Nat × Nat
  | 0, m => (m, 0)
  | p + 1, m =>
    if m < 2 ^ (52 : Nat) then (m, p + 1) else capDigits p (m / 10 + if 5 ≤ m % 10 then 1 else 0)

/-- Drops places that hold a zero. -/
def dropZeros : (places m : Nat) → Nat × Nat
  | 0, m => (m, 0)
  | p + 1, m => if m % 10 = 0 then dropZeros p (m / 10) else (m, p + 1)

/-- Works off the fives of `m * 10 ^ zeros / 5 ^ fives`. A fifth is two tenths: `m` is doubled and
takes a zero, or is divided for want of room, unless too many zeros are left. -/
def divideFives : (fives m zeros : Nat) → Option (Nat × Nat)
  | 0, m, zeros => some (m, zeros)
  | f + 1, m, zeros =>
    if 2 * m < coefficientLimit then divideFives f (2 * m) (zeros - 1)
    else if f + 1 < 2 * zeros then none
    else divideFives f (m / 5) zeros

/-- Appends the zeros that are left, as long as there is room. -/
def appendZeros : (zeros m : Nat) → Option Nat
  | 0, m => some m
  | z + 1, m => if 10 * m < coefficientLimit then appendZeros z (10 * m) else none

/-- The coefficient and scale for `m * 2 ^ e` units of `2 ^ -1074`, where `m` is positive. -/
def ofUnits? (m e : Nat) : Option (Nat × Nat) :=
  if e ≤ 1074 then
    let (m, places) := multiplyFives (1074 - e) m (1074 - e)
    let (m, places) := capScale places m
    let (m, places) := capDigits places m
    some (dropZeros places m)
  else do
    let (m, zeros) ← divideFives (e - 1074) m (e - 1074)
    return (← appendZeros zeros m, 0)

/-- There is none for what is not finite and for magnitudes out of range. -/
def ofDouble? : Double → Option Decimal
  | .finite negative m e _ =>
    if m = 0 then some zero
    else (ofUnits? m e).map fun (magnitude, scale) => ofMagnitude negative magnitude scale
  | _ => none

example : ofDouble? (Double.ofRatio false 1 10) = some ⟨1, 1⟩ := by decide +kernel

example : ofDouble? (Double.ofRatio true 1005 1000) = some ⟨-1005, 3⟩ := by decide +kernel

end CampusQuery.Decimal
