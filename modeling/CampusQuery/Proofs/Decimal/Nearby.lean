import CampusQuery.Proofs.Decimal.Scale
import CampusQuery.Proofs.Double.Spacing
import CampusQuery.Reduction

/-! The double that is made of a decimal. Main statement: rounding to cents and then twice more, the coefficient and
its quotient by the power of ten, leads to a closest double as long as the coefficient is a double itself, and
otherwise no further than to the next one. -/

namespace CampusQuery

namespace Decimal

section Quotient

variable {a : Decimal} {k : ℕ}

theorem abs_value_le_natAbs (a : Decimal) : |a.value| ≤ a.coefficient.natAbs := by
  rw [abs_value]
  exact div_le_self (Nat.cast_nonneg _) (one_le_pow₀ (by norm_num))

/-- The coefficient is rounded, and then its quotient by the power of ten. -/
theorem isClosestTo_quotient (hk : k ≤ 1023) (h : a.coefficient.natAbs ≤ 2 ^ k) (hs : a.scale ≤ 15) :
    a.toDouble.IsClosestTo ((Double.ofInt a.coefficient).value / 10 ^ a.scale) := by
  have hpow : 10 ^ a.scale < 2 ^ 53 := (Nat.pow_le_pow_right (by decide) hs).trans_lt (by decide)
  have hx := (Double.isClosestTo_ofInt hk h).1
  obtain ⟨hy, hyvalue⟩ := Double.value_ofInt (n := (10 ^ a.scale : ℕ)) (by rwa [Int.natAbs_natCast])
  have hten : (Double.ofInt (10 ^ a.scale : ℕ)).value = 10 ^ a.scale := by
    rw [hyvalue]
    push_cast
    rfl
  have hone : (1 : ℚ) ≤ 10 ^ a.scale := one_le_pow₀ (by norm_num)
  rw [toDouble, Double.ofNat_eq_ofInt, ← hten]
  refine Double.isClosestTo_div hx hy (by rw [hten]; positivity) ?_
  rw [hten, abs_div, abs_of_pos (zero_lt_one.trans_le hone)]
  exact (div_le_self (abs_nonneg _) hone).trans (Double.abs_value_le_max hx)

/-- A coefficient that is a double is divided only once. -/
theorem isClosestTo_toDouble_of_exact (hk : k ≤ 1023) (h : a.coefficient.natAbs ≤ 2 ^ k) (hs : a.scale ≤ 15)
    {x : Double} (hx : x.isFinite = true) (hvalue : x.value = a.coefficient) : a.toDouble.IsClosestTo a.value := by
  have hquotient := isClosestTo_quotient hk h hs
  rwa [(Double.isClosestTo_ofInt hk h).value_eq hx hvalue] at hquotient

theorem isClosestTo_toDouble_of_whole (hk : k ≤ 1023) (h : a.coefficient.natAbs ≤ 2 ^ k) (hs : a.scale = 0) :
    a.toDouble.IsClosestTo a.value := by
  have hcoefficient := Double.isClosestTo_ofInt hk h
  have hquotient := isClosestTo_quotient hk h (by omega)
  rw [hs, pow_zero, div_one] at hquotient
  have hvalue : a.value = a.coefficient := by rw [value, hs, pow_zero, div_one]
  rw [hvalue]
  exact hcoefficient.of_value_eq hquotient.1 (hquotient.value_eq hcoefficient.1 rfl)

theorem isNextToClosest_toDouble (hk : k ≤ 1023) (h : a.coefficient.natAbs ≤ 2 ^ k) (hs : a.scale ≤ 15) :
    a.toDouble.IsNextToClosest a.value := by
  have hquotient := isClosestTo_quotient hk h hs
  have hpow : (0 : ℚ) < 10 ^ a.scale := by positivity
  have hvalue : |a.value| ≤ 2 ^ k := (abs_value_le_natAbs a).trans (by exact_mod_cast h)
  refine ⟨hquotient.1, Double.exists_isClosestTo hk hvalue, fun y hy => hquotient.adjoins hy ?_⟩
  rcases Double.ofInt_eq_or_abs_sub_lt hk h with hexact | herror
  · left
    rw [hexact, value]
  · right
    rw [value, ← sub_div, abs_div, abs_div, ← mul_div_assoc, abs_of_pos hpow, div_lt_div_iff_of_pos_right hpow]
    exact herror

end Quotient

/-- What is rounded to cents keeps a coefficient that is not too large. -/
theorem natAbs_coefficient_roundToCents_le {d : Decimal} (h : d.InRange) :
    d.roundToCents.coefficient.natAbs ≤ 2 ^ 103 := by
  have hlimit : (d.coefficient.natAbs : ℚ) ≤ (2 ^ 96 : ℕ) := Nat.cast_le.2 h.1.le
  have hcents : hundredths d.value ≤ 2 ^ 96 * 100 :=
    hundredths_le_mul_hundred ((abs_value_le_natAbs d).trans hlimit)
  have hle := natAbs_coefficient_le (scale_roundToCents_le d) (value_roundToCents d)
  omega

/-- Of a decimal that is rounded to cents a closest double is made, or one next to it. It is a closest one if the
decimal is whole or a double has room for the coefficient, and the only one if a significand has. -/
theorem toDouble_roundToCents_isNextToClosest {d : Decimal} (h : d.InRange) :
    d.roundToCents.value = toCents d.value ∧ d.roundToCents.scale = min 2 d.scale ∧
      (∃ x : Double, x.IsClosestTo d.roundToCents.coefficient ∧
        d.roundToCents.toDouble.IsClosestTo (x.value / 10 ^ d.roundToCents.scale)) ∧
      d.roundToCents.toDouble.IsNextToClosest (toCents d.value) ∧
      (hundredths d.value < 2 ^ 53 → d.roundToCents.toDouble.IsUniquelyClosestTo (toCents d.value)) ∧
      (d.scale = 0 ∨ (∃ x : Double, x.isFinite = true ∧ x.value = d.roundToCents.coefficient) →
        d.roundToCents.toDouble.IsClosestTo (toCents d.value)) := by
  have hvalue := value_roundToCents d
  have hscale := scale_roundToCents d
  have hsmall : d.roundToCents.scale ≤ 15 := by omega
  have hbound := natAbs_coefficient_roundToCents_le h
  have hk : 103 ≤ 1023 := by decide
  refine ⟨hvalue, hscale, ⟨_, Double.isClosestTo_ofInt hk hbound, isClosestTo_quotient hk hbound hsmall⟩,
    hvalue ▸ isNextToClosest_toDouble hk hbound hsmall,
    fun hcents => isUniquelyClosestTo_toDouble (scale_roundToCents_le d) hcents hvalue, ?_⟩
  rw [← hvalue]
  rintro (hwhole | ⟨x, hx, hexact⟩)
  · exact isClosestTo_toDouble_of_whole hk hbound (by omega)
  · exact isClosestTo_toDouble_of_exact hk hbound hsmall hx hexact

/-- A tenth more than the last odd number that a significand has room for. -/
def tenthMore : Decimal := ⟨10 * (2 ^ 53 - 1) + 1, 1⟩

theorem isNextToClosest_tenthMore :
    tenthMore.InRange ∧ tenthMore.roundToCents.toDouble.IsNextToClosest (toCents tenthMore.value) := by
  have hrange : tenthMore.InRange := by decide
  obtain ⟨-, -, -, hnext, -⟩ := toDouble_roundToCents_isNextToClosest hrange
  exact ⟨hrange, hnext⟩

theorem toCents_tenthMore : toCents tenthMore.value = 2 ^ 53 - 1 + 1 / 10 := by
  have hrounded : tenthMore.roundToCents = tenthMore := rfl
  rw [← value_roundToCents, hrounded]
  norm_num [tenthMore, value]

/-- A tenth that is added takes one away. -/
theorem not_isClosestTo_tenthMore :
    tenthMore.InRange ∧
      Total.decimalSum? [Double.ofInt (2 ^ 53 - 1), Double.ofRatio false 1 10] = some tenthMore ∧
      tenthMore.roundToCents.toDouble = Double.ofInt (2 ^ 53 - 2) ∧
      ¬tenthMore.roundToCents.toDouble.IsClosestTo (toCents tenthMore.value) := by
  have hless : tenthMore.roundToCents.toDouble = Double.ofInt (2 ^ 53 - 2) := by decide +kernel
  refine ⟨by decide, by decide +kernel, hless, ?_⟩
  rw [hless, toCents_tenthMore]
  intro hclosest
  obtain ⟨-, hvalue⟩ := Double.value_ofInt (n := 2 ^ 53 - 2) (by decide)
  obtain ⟨hfinite, hvalue'⟩ := Double.value_ofInt (n := 2 ^ 53 - 1) (by decide)
  have hcloser := hclosest.2 _ hfinite
  rw [hvalue, hvalue'] at hcloser
  norm_num [abs_of_nonneg, abs_of_nonpos] at hcloser

end Decimal

end CampusQuery
