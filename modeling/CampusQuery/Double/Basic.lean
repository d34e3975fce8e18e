/-! Binary floating point numbers of 64 bits, as data. A finite number is a whole number of units of
`2 ^ -1074`, so comparing two of them is comparing integers. -/

namespace CampusQuery

namespace NaturalPower

/-- The built-in power of natural numbers, also beside a library that has its own. -/
scoped instance (priority := 2000) builtIn : Pow Nat Nat := instPowNat

end NaturalPower

open NaturalPower

/-- A magnitude of `significand * 2 ^ exponent` units has 53 bits at most, and uses all of them
unless its exponent is zero. -/
def Canonical (significand exponent : Nat) : Prop :=
  significand < 2 ^ (53 : Nat) ∧ exponent ≤ 2045 ∧ (exponent = 0 ∨ 2 ^ (52 : Nat) ≤ significand)

instance (significand exponent : Nat) : Decidable (Canonical significand exponent) :=
  inferInstanceAs (Decidable (_ ∧ _))

inductive Double where
  | nan (negative : Bool) (payload : Nat) (fits : 0 < payload ∧ payload < 2 ^ (52 : Nat))
  | infinite (negative : Bool)
  | finite (negative : Bool) (significand exponent : Nat) (canonical : Canonical significand exponent)
deriving DecidableEq

namespace Double

/-- How many units make one. -/
def unitsPerOne : Nat := 2 ^ (1074 : Nat)

theorem unitsPerOne_eq {k : Nat} (h : k = 1074) : unitsPerOne = 2 ^ k := by rw [unitsPerOne, ← h]

theorem unitsPerOne_pos : 0 < unitsPerOne := by
  rw [unitsPerOne_eq rfl]
  apply Nat.two_pow_pos

def zero : Double := .finite false 0 0 (by decide)

def negativeZero : Double := .finite true 0 0 (by decide)

/-- The not-a-number that arithmetic produces. -/
def undefined : Double := .nan false (2 ^ (51 : Nat)) (by decide)

def isNaN : Double → Bool
  | .nan .. => true
  | _ => false

def isFinite : Double → Bool
  | .finite .. => true
  | _ => false

def isNegative : Double → Bool
  | .nan s .. | .infinite s | .finite s .. => s

/-- The distance from zero in units; an infinity lies beyond every finite number. -/
def magnitude : Double → Nat
  | .nan .. => 0
  | .infinite _ => 2 ^ (2098 : Nat)
  | .finite _ m e _ => m * 2 ^ e

/-- The place on the number line, in units. -/
def position (x : Double) : Int :=
  if x.isNegative then -(x.magnitude : Int) else x.magnitude

/-- A comparison with a not-a-number is false. -/
def lt (x y : Double) : Bool :=
  !x.isNaN && !y.isNaN && decide (x.position < y.position)

/-- The two zeros are equal, and a not-a-number equals nothing. -/
def eq (x y : Double) : Bool :=
  !x.isNaN && !y.isNaN && decide (x.position = y.position)

/-- Equality in which all not-a-numbers count as one. -/
def same (x y : Double) : Bool := (x.isNaN && y.isNaN) || x.eq y

/-- The order of the number line, with every not-a-number behind it. -/
def order (x y : Double) : Ordering :=
  match x.isNaN, y.isNaN with
  | true, true => .eq
  | true, false => .gt
  | false, true => .lt
  | false, false => compare x.position y.position

/-- The greater operand; a not-a-number gives way to the other one. -/
def max (x y : Double) : Double :=
  if x.isNaN then y else if y.isNaN then x else if x.lt y then y else x

/-- The smaller operand; a not-a-number gives way to the other one. -/
def min (x y : Double) : Double :=
  if x.isNaN then y else if y.isNaN then x else if y.lt x then y else x

end Double

end CampusQuery
