import CampusQuery.Double.Rounding

/-! Decimal numbers: a whole coefficient of at most 96 bits and at most 28 places. -/

namespace CampusQuery

open NaturalPower

/-- The number `coefficient / 10 ^ scale`. -/
structure Decimal where
  coefficient : Int
  scale : Nat
deriving DecidableEq, Repr

namespace Decimal

/-- Coefficients stay below this. -/
def coefficientLimit : Nat := 2 ^ (96 : Nat)

def maxScale : Nat := 28

def InRange (d : Decimal) : Prop :=
  d.coefficient.natAbs < coefficientLimit ∧ d.scale ≤ maxScale

instance (d : Decimal) : Decidable d.InRange := inferInstanceAs (Decidable (_ ∧ _))

def zero : Decimal := ⟨0, 0⟩

/-- A magnitude with a sign. -/
def ofMagnitude (negative : Bool) (magnitude scale : Nat) : Decimal :=
  ⟨if negative then -(magnitude : Int) else magnitude, scale⟩

end Decimal

end CampusQuery
