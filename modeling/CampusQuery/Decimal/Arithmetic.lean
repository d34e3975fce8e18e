import CampusQuery.Decimal.Basic
import CampusQuery.Double.Arithmetic

/-! Sum, division by a count and rounding of decimals. -/

namespace CampusQuery.Decimal

open NaturalPower

/-- `magnitude / 10 ^ scale` on the finest scale, from the given one down, on which its coefficient
has room. A half goes to the even neighbour. -/
def fit? (magnitude scale : Nat) : Nat → Option (Nat × Nat)
  | 0 =>
    let m := roundHalfEven magnitude (10 ^ scale)
    if m < coefficientLimit then some (m, 0) else none
  | s + 1 =>
    let m := roundHalfEven magnitude (10 ^ (scale - (s + 1)))
    if m < coefficientLimit then some (m, s + 1) else fit? magnitude scale s

/-- The exact sum on the finer of the two scales, or on the finest one where it has room. A zero
has no say in the scale: what it is added to stays as it is. -/
def add? (a b : Decimal) : Option Decimal :=
  if a.coefficient = 0 then some b
  else if b.coefficient = 0 then some a
  else
    let scale := max a.scale b.scale
    let sum : Int :=
      a.coefficient * (10 ^ (scale - a.scale) : Nat) + b.coefficient * (10 ^ (scale - b.scale) : Nat)
    (fit? sum.natAbs scale scale).map fun (m, s) => ofMagnitude (decide (sum < 0)) m s

/-- The sum of a list, added from the left. -/
def sum? (ds : List Decimal) : Option Decimal := ds.foldlM add? zero

/-- How many digits, up to `most`, a quotient has room for. -/
def room (q : Nat) : (most : Nat) → Nat
  | 0 => 0
  | x + 1 => if q * 10 ^ (x + 1) < coefficientLimit then x + 1 else room q x

/-- `q + r / d` on the given scale, or on the next coarser one where the whole number has no room. A
half goes to the even neighbour. -/
def settle (d q r scale : Nat) : Nat × Nat :=
  let m := roundHalfEven (q * d + r) d
  if m < coefficientLimit then (m, scale) else (roundHalfEven (q * d + r) (10 * d), scale - 1)

/-- Long division: `q` and `r` are what the digits so far leave of the dividend. Up to nine digits
are taken at a time. The quotient is settled where there is room for none, or where the zeros had
room and the digits in their place do not. -/
def divide (d : Nat) : (steps q r scale : Nat) → Nat × Nat
  | 0, q, r, scale => settle d q r scale
  | steps + 1, q, r, scale =>
    if r = 0 then (q, scale)
    else
      let x := room q (min 9 (maxScale - scale))
      if x = 0 then settle d q r scale
      else
        let q' := q * 10 ^ x + r * 10 ^ x / d
        let r' := r * 10 ^ x % d
        if q' < coefficientLimit then divide d steps q' r' (scale + x)
        else settle d q' r' (scale + x)

/-- Drops eight zeros at a time while the low 32 bits are clear. -/
def dropEights : (scale q : Nat) → Nat × Nat
  | s + 8, q =>
    if q % 2 ^ (32 : Nat) = 0 ∧ q % 10 ^ (8 : Nat) = 0 then dropEights s (q / 10 ^ (8 : Nat)) else (q, s + 8)
  | s, q => (q, s)

/-- Drops `k` zeros if there are as many. -/
def dropOnce (k : Nat) : Nat × Nat → Nat × Nat
  | (q, s) => if k ≤ s ∧ q % 10 ^ k = 0 then (q / 10 ^ k, s - k) else (q, s)

/-- The quotient by a positive count, with most of the zeros that the division added dropped. -/
def divNat (a : Decimal) (d : Nat) : Decimal :=
  let m := a.coefficient.natAbs
  let (q, s) :=
    if m % d = 0 then (m / d, a.scale)
    else
      let (q, s) := divide d maxScale (m / d) (m % d) a.scale
      dropOnce 1 (dropOnce 2 (dropOnce 4 (dropEights s q)))
  ofMagnitude (decide (a.coefficient < 0)) q s

/-- At most two places; a half goes away from zero. -/
def roundToCents (a : Decimal) : Decimal :=
  if a.scale ≤ 2 then a
  else
    let unit := 10 ^ (a.scale - 2)
    ofMagnitude (decide (a.coefficient < 0)) ((2 * a.coefficient.natAbs + unit) / (2 * unit)) 2

/-- The quotient of the coefficient and the power of ten, each as a double. -/
def toDouble (a : Decimal) : Double := (Double.ofInt a.coefficient).div (Double.ofNat (10 ^ a.scale))

-- tenths that cancel leave no place behind
example : sum? [⟨1, 1⟩, ⟨-1, 1⟩, ⟨5, 0⟩] = some ⟨5, 0⟩ := by decide +kernel

example : (divNat ⟨100, 0⟩ 3).roundToCents = ⟨3333, 2⟩ := by decide +kernel

-- nine zeros fit behind the whole part of the quotient, nine digits do not
example : divNat ⟨396140812571321687968, 0⟩ 5 = ⟨792281625142643375936, 1⟩ := by decide +kernel

example : (divNat ⟨1, 0⟩ 8).roundToCents = ⟨13, 2⟩ := by decide +kernel

end CampusQuery.Decimal
