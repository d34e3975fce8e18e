import CampusQuery.Proofs.Decimal.Quotient
import Mathlib.Algebra.Order.Floor.Semifield

/-! Rounding to cents. Main statements: a decimal is rounded to the nearest cent, and the double that is made of it
is the closest one; a quotient is rounded to the cent that its magnitude is nearest to, but for those that fall
short of half a cent by less than a decimal has places for. -/

namespace CampusQuery

/-- The number of hundredths nearest to the magnitude of `v`; a half goes up. -/
def hundredths (v : ℚ) : ℕ := ⌊100 * |v| + 1 / 2⌋₊

/-- The number of at most two places nearest to `v`; a half goes away from zero. -/
def toCents (v : ℚ) : ℚ := signed (decide (v < 0)) (hundredths v / 100)

/-- One cent further away from zero. -/
def nextCents (v : ℚ) : ℚ := signed (decide (v < 0)) ((hundredths v + 1 : ℕ) / 100)

theorem toCents_signed (negative : Bool) {v : ℚ} (hv : 0 ≤ v) :
    toCents (signed negative v) = signed negative (hundredths v / 100) := by
  unfold toCents hundredths
  rw [abs_signed]
  rcases hv.eq_or_lt with rfl | hpos
  · have hnone : ⌊100 * |(0 : ℚ)| + 1 / 2⌋₊ = 0 := Nat.floor_eq_zero.2 (by norm_num)
    rw [hnone]
    cases negative <;> simp [signed]
  · have hsign : decide (signed negative v < 0) = negative := by
      cases negative with
      | false => exact decide_eq_false (not_lt.2 hv)
      | true => exact decide_eq_true (neg_lt_zero.2 hpos)
    rw [hsign]

theorem succ_le_hundredths_iff {v : ℚ} (hv : 0 ≤ v) (k : ℕ) :
    k + 1 ≤ hundredths v ↔ ((2 * k + 1 : ℕ) / 200 : ℚ) ≤ v := by
  rw [hundredths, abs_of_nonneg hv, Nat.le_floor_iff (by positivity)]
  push_cast
  constructor <;> intro h <;> linarith

theorem hundredths_of_whole {v : ℚ} {n : ℕ} (h : 100 * |v| = n) : hundredths v = n := by
  rw [hundredths, h, Nat.floor_eq_iff (by positivity)]
  constructor <;> linarith

theorem mul_hundred_le_hundredths {v : ℚ} {k : ℕ} (h : (k : ℚ) ≤ |v|) : k * 100 ≤ hundredths v := by
  refine (Nat.le_floor_iff (by positivity)).2 ?_
  push_cast
  linarith

theorem hundredths_le_mul_hundred {v : ℚ} {k : ℕ} (h : |v| ≤ k) : hundredths v ≤ k * 100 := by
  refine Nat.lt_succ_iff.1 ((Nat.floor_lt (by positivity)).2 ?_)
  push_cast
  linarith

theorem hundredths_natCast_div (m : ℕ) {s : ℕ} (hs : 2 < s) :
    hundredths (m / 10 ^ s) = (2 * m + 10 ^ (s - 2)) / (2 * 10 ^ (s - 2)) := by
  obtain ⟨k, rfl⟩ := Nat.exists_eq_add_of_le hs.le
  rw [Nat.add_sub_cancel_left, hundredths, abs_of_nonneg (by positivity), ← Nat.floor_div_eq_div (K := ℚ)]
  congr 1
  push_cast
  rw [pow_add]
  field_simp
  ring

namespace Decimal

theorem value_eq_signed (a : Decimal) :
    a.value = signed (decide (a.coefficient < 0)) (a.coefficient.natAbs / 10 ^ a.scale) :=
  (signed_natAbs _ _).symm

theorem value_roundToCents (a : Decimal) : a.roundToCents.value = toCents a.value := by
  rw [value_eq_signed a, toCents_signed _ (by positivity)]
  unfold roundToCents
  split_ifs with hs
  · obtain ⟨k, hk⟩ := Nat.exists_eq_add_of_le hs
    have hwhole : 100 * |(a.coefficient.natAbs / 10 ^ a.scale : ℚ)| = (a.coefficient.natAbs * 10 ^ k : ℕ) := by
      have hsplit : (100 : ℚ) = 10 ^ a.scale * 10 ^ k := by
        rw [← pow_add, ← hk]
        norm_num
      rw [abs_of_nonneg (by positivity), hsplit]
      push_cast
      field_simp
    rw [hundredths_of_whole hwhole, ← hwhole, abs_of_nonneg (by positivity),
      mul_div_cancel_left₀ _ (by norm_num)]
    exact value_eq_signed a
  · dsimp only
    rw [value_ofMagnitude, hundredths_natCast_div _ (not_le.1 hs)]
    norm_num

/-- The coefficient and the power of ten are both met exactly. -/
structure DividesExactly (a : Decimal) (x y : Double) : Prop where
  toDouble_eq : a.toDouble = x.div y
  left_isFinite : x.isFinite = true
  right_isFinite : y.isFinite = true
  right_ne_zero : y.value ≠ 0
  value_eq : a.value = x.value / y.value

theorem dividesExactly {a : Decimal} (h : a.coefficient.natAbs < 2 ^ 53) (hs : a.scale ≤ 15) :
    a.DividesExactly (Double.ofInt a.coefficient) (Double.ofInt (10 ^ a.scale : ℕ)) := by
  have hpow : 10 ^ a.scale < 2 ^ 53 := (Nat.pow_le_pow_right (by decide) hs).trans_lt (by decide)
  obtain ⟨hx, hxvalue⟩ := Double.value_ofInt h
  obtain ⟨hy, hyvalue⟩ := Double.value_ofInt (n := (10 ^ a.scale : ℕ)) (by rwa [Int.natAbs_natCast])
  refine ⟨by rw [toDouble, Double.ofNat_eq_ofInt], hx, hy, ?_, ?_⟩
  · rw [hyvalue]
    positivity
  · rw [hxvalue, hyvalue, value]
    push_cast
    rfl

theorem isClosestTo_toDouble {a : Decimal} (h : a.coefficient.natAbs < 2 ^ 53) (hs : a.scale ≤ 15) :
    a.toDouble.IsClosestTo a.value := by
  obtain ⟨hdiv, hx, hy, hne, hvalue⟩ := dividesExactly h hs
  rw [hdiv, hvalue]
  refine Double.isClosestTo_div hx hy hne ?_
  have hunit : (0 : ℚ) < 2 ^ 1074 := pow_pos two_pos 1074
  have hmax : (2 ^ 53 * 2 ^ 1074 : ℚ) ≤ Double.maxMagnitude := by
    have hcast := (Nat.cast_le (α := ℚ)).2 (Double.two_pow_mul_le_max (k := 53) (l := 1074) (by decide))
    rwa [Nat.cast_mul, Nat.cast_pow, Nat.cast_pow, Nat.cast_ofNat] at hcast
  have hsmall : (a.coefficient.natAbs : ℚ) ≤ 2 ^ 53 := by exact_mod_cast h.le
  rw [← hvalue, abs_value, le_div_iff₀ hunit]
  refine le_trans (mul_le_mul_of_nonneg_right ?_ hunit.le) hmax
  exact (div_le_self (Nat.cast_nonneg _) (one_le_pow₀ (by norm_num))).trans hsmall

theorem natAbs_coefficient_le {a : Decimal} {negative : Bool} {c : ℕ} (hs : a.scale ≤ 2)
    (hv : a.value = signed negative (c / 100)) : a.coefficient.natAbs ≤ c := by
  have hpow : (0 : ℚ) < 10 ^ a.scale := by positivity
  have habs : (a.coefficient.natAbs / 10 ^ a.scale : ℚ) = c / 100 := by
    rw [← abs_value, hv, abs_signed, abs_of_nonneg (by positivity)]
  have hle : (10 : ℚ) ^ a.scale ≤ 100 := (pow_le_pow_right₀ (by norm_num) hs).trans (by norm_num)
  rw [div_eq_div_iff hpow.ne' (by norm_num)] at habs
  have hcast : (a.coefficient.natAbs * 100 : ℚ) ≤ c * 100 := habs ▸ mul_le_mul_of_nonneg_left hle (by positivity)
  exact_mod_cast le_of_mul_le_mul_right hcast (by norm_num)

/-- A number of cents that a significand has room for becomes the closest double. -/
theorem isUniquelyClosestTo_toDouble {a : Decimal} {negative : Bool} {c : ℕ} (hs : a.scale ≤ 2) (hc : c < 2 ^ 53)
    (hv : a.value = signed negative (c / 100)) : a.toDouble.IsUniquelyClosestTo (signed negative (c / 100)) := by
  have hclosest := isClosestTo_toDouble ((natAbs_coefficient_le hs hv).trans_lt hc) (hs.trans (by decide))
  rw [hv] at hclosest
  exact hclosest.uniquely hc

section Quotient

variable {v : ℚ}

/-- The number is less than half a cent by no more than half of the last place that there is room for. -/
def FallsShort (v : ℚ) : Prop :=
  ∃ k : ℕ, |v| < (2 * k + 1 : ℕ) / 200 ∧ ((2 * k + 1 : ℕ) / 200 : ℚ) ≤ |v| + 1 / (2 * 10 ^ places |v|)

/-- Half a cent is an even number of units from the fourth place on. -/
theorem succ_le_hundredths_fitted_iff (hv : 0 ≤ v) (hp : 4 ≤ places v) (k : ℕ) :
    k + 1 ≤ hundredths (fitted v) ↔ ((2 * k + 1 : ℕ) / 200 : ℚ) ≤ v + 1 / (2 * 10 ^ places v) := by
  obtain ⟨j, hj⟩ := Nat.exists_eq_add_of_le hp
  have hpow : (0 : ℚ) < 10 ^ places v := by positivity
  have hunits : ((2 * k + 1) * (50 * 10 ^ j) : ℕ) = ((2 * k + 1 : ℕ) / 200 : ℚ) * 10 ^ places v := by
    rw [hj, pow_add]
    push_cast
    ring
  have heven : (2 * k + 1) * (50 * 10 ^ j) % 2 = 0 := by
    have htwice : (2 * k + 1) * (50 * 10 ^ j) = 2 * ((2 * k + 1) * (25 * 10 ^ j)) := by ring
    omega
  have hsplit : v + 1 / (2 * 10 ^ places v) = (v * 10 ^ places v + 1 / 2) / 10 ^ places v := by field_simp
  rw [succ_le_hundredths_iff (by unfold fitted; positivity), fitted, le_div_iff₀ hpow, ← hunits, Nat.cast_le,
    le_halfEven_iff_of_even (by positivity) heven, hunits, hsplit, le_div_iff₀ hpow]

/-- The magnitude of a number that falls short is rounded to the next cent. -/
theorem hundredths_fitted (hv : 0 ≤ v) (hp : 4 ≤ places v) :
    (¬FallsShort v → hundredths (fitted v) = hundredths v) ∧
      (FallsShort v → hundredths (fitted v) = hundredths v + 1) := by
  have hle (k : ℕ) := succ_le_hundredths_iff hv k
  have hfitted (k : ℕ) := succ_le_hundredths_fitted_iff hv hp k
  have hgap : 0 < 1 / (2 * 10 ^ places v : ℚ) ∧ 1 / (2 * 10 ^ places v : ℚ) < 1 / 100 := by
    have hpow : (10 : ℚ) ^ 4 ≤ 10 ^ places v := pow_le_pow_right₀ (by norm_num) hp
    refine ⟨by positivity, one_div_lt_one_div_of_lt (by norm_num) ?_⟩
    linarith
  unfold FallsShort
  rw [abs_of_nonneg hv]
  generalize 1 / (2 * 10 ^ places v : ℚ) = gap at hfitted hgap ⊢
  have hstep (k : ℕ) : ((2 * (k + 1) + 1 : ℕ) / 200 : ℚ) = (2 * k + 1 : ℕ) / 200 + 1 / 100 := by
    push_cast
    ring
  constructor
  · intro hnone
    refine eq_of_forall_le_iff fun k => ?_
    cases k with
    | zero => simp
    | succ k =>
      rw [hle, hfitted]
      refine ⟨fun h => ?_, fun h => by linarith⟩
      by_contra hlt
      exact hnone ⟨k, not_le.1 hlt, h⟩
  · rintro ⟨k, hbelow, habove⟩
    have hreached : k + 1 ≤ hundredths (fitted v) := (hfitted k).2 habove
    have hlast : ¬k + 1 + 1 ≤ hundredths (fitted v) := by
      rw [hfitted, hstep]
      linarith
    have hnot : ¬k + 1 ≤ hundredths v := by
      rw [hle]
      exact not_le.2 hbelow
    have hbefore : k ≤ hundredths v := by
      cases k with
      | zero => exact Nat.zero_le _
      | succ j =>
        rw [hle]
        rw [hstep] at habove
        linarith
    omega

end Quotient

end Decimal

end CampusQuery
