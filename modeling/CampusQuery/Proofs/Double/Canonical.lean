import CampusQuery.Double.Basic
import Mathlib.Tactic

/-! A double's place on the number line determines it, but for the sign of zero. -/

namespace CampusQuery.Double

theorem cast_unitsPerOne : (unitsPerOne : ℚ) = 2 ^ 1074 := by
  generalize hk : 1074 = k
  rw [unitsPerOne_eq hk.symm, Nat.cast_pow, Nat.cast_ofNat]

theorem exponent_le_of_magnitude_le {m e n f : ℕ} (hx : Canonical m e) (hy : Canonical n f)
    (h : n * 2 ^ f ≤ m * 2 ^ e) : f ≤ e := by
  obtain ⟨hm, -, -⟩ := hx
  obtain ⟨-, -, hf⟩ := hy
  by_contra hef
  have hn : 2 ^ 52 ≤ n := by omega
  have hp : 2 ^ e * 2 ≤ 2 ^ f := by rw [← pow_succ]; exact Nat.pow_le_pow_right two_pos (by omega)
  have hge : 2 ^ 53 * 2 ^ e ≤ m * 2 ^ e := calc
    2 ^ 53 * 2 ^ e = 2 ^ 52 * (2 ^ e * 2) := by ring
    _ ≤ n * 2 ^ f := Nat.mul_le_mul hn hp
    _ ≤ m * 2 ^ e := h
  have := Nat.le_of_mul_le_mul_right hge (by positivity)
  omega

/-- A magnitude is written in one way. -/
theorem eq_of_magnitude_eq {m e n f : ℕ} (hx : Canonical m e) (hy : Canonical n f)
    (h : m * 2 ^ e = n * 2 ^ f) : m = n ∧ e = f := by
  have hef : e = f := le_antisymm (exponent_le_of_magnitude_le hy hx h.le)
    (exponent_le_of_magnitude_le hx hy h.ge)
  subst hef
  exact ⟨Nat.eq_of_mul_eq_mul_right (by positivity) h, rfl⟩

theorem mul_two_pow_lt {m e b : ℕ} (hm : m < 2 ^ 53) (hb : 53 + e ≤ b) : m * 2 ^ e < 2 ^ b := by
  calc
    m * 2 ^ e < 2 ^ 53 * 2 ^ e := Nat.mul_lt_mul_of_pos_right hm (by positivity)
    _ = 2 ^ (53 + e) := (pow_add 2 53 e).symm
    _ ≤ 2 ^ b := Nat.pow_le_pow_right two_pos hb

theorem magnitude_lt_infinite {m e : ℕ} (h : Canonical m e) (s : Bool) : m * 2 ^ e < (infinite s).magnitude := by
  obtain ⟨hm, he, -⟩ := h
  simp only [magnitude]
  apply mul_two_pow_lt hm
  omega

theorem magnitude_infinite_ne_zero (s : Bool) : (infinite s).magnitude ≠ 0 := by
  have hzero : Canonical 0 0 := by decide
  exact (Nat.zero_lt_of_lt (magnitude_lt_infinite hzero s)).ne'

def isZero (x : Double) : Bool := x.isFinite && x.magnitude == 0

theorem natAbs_position (x : Double) : x.position.natAbs = x.magnitude := by
  unfold position
  split <;> simp

theorem eq_zero_or_of_isZero {x : Double} (h : x.isZero = true) : x = zero ∨ x = negativeZero := by
  cases x with
  | nan => simp [isZero, isFinite] at h
  | infinite => simp [isZero, isFinite] at h
  | finite s m e hc =>
    have hm : m = 0 := by simpa [isZero, isFinite, magnitude] using h
    obtain ⟨-, -, he⟩ := id hc
    obtain rfl : e = 0 := by omega
    subst hm
    cases s
    · exact .inl rfl
    · exact .inr rfl

theorem isNegative_eq_of_position_eq {x y : Double} (h : x.position = y.position) (hne : x.magnitude ≠ 0) :
    x.isNegative = y.isNegative := by
  unfold position at h
  split at h <;> split at h
  · simp_all
  · omega
  · omega
  · simp_all

/-- Two numbers in one place have the same magnitude and, unless it is zero, the same sign. -/
theorem eq_or_isZero_of_position_eq {x y : Double} (hx : x.isNaN = false) (hy : y.isNaN = false)
    (h : x.position = y.position) : x = y ∨ (x.isZero = true ∧ y.isZero = true) := by
  have hmag : x.magnitude = y.magnitude := by rw [← natAbs_position, ← natAbs_position, h]
  have hneg := isNegative_eq_of_position_eq h
  cases x with
  | nan => cases hx
  | infinite s =>
    cases y with
    | nan => cases hy
    | infinite t =>
      obtain rfl : s = t := hneg (magnitude_infinite_ne_zero s)
      exact .inl rfl
    | finite t n f hc => exact absurd hmag (magnitude_lt_infinite hc s).ne'
  | finite s m e hc =>
    cases y with
    | nan => cases hy
    | infinite t => exact absurd hmag (magnitude_lt_infinite hc t).ne
    | finite t n f hc' =>
      obtain ⟨rfl, rfl⟩ := eq_of_magnitude_eq hc hc' hmag
      by_cases hzero : m * 2 ^ e = 0
      · have hz (u : Bool) : isZero (.finite u m e hc) = true := by
          simp only [isZero, isFinite, magnitude, hzero, Bool.true_and, beq_self_eq_true]
        exact .inr ⟨hz s, hz t⟩
      · obtain rfl : s = t := hneg hzero
        exact .inl rfl

theorem not_isNaN_of_isZero {x : Double} (h : x.isZero = true) : x.isNaN = false := by
  rcases eq_zero_or_of_isZero h with rfl | rfl <;> rfl

theorem position_of_isZero {x : Double} (h : x.isZero = true) : x.position = 0 := by
  rcases eq_zero_or_of_isZero h with rfl | rfl <;> decide

theorem same_iff (x y : Double) :
    x.same y = true ↔
      x = y ∨ (x.isNaN = true ∧ y.isNaN = true) ∨ (x.isZero = true ∧ y.isZero = true) := by
  simp only [same, eq, Bool.or_eq_true, Bool.and_eq_true, Bool.not_eq_true', decide_eq_true_eq]
  constructor
  · rintro (h | ⟨⟨hx, hy⟩, h⟩)
    · exact .inr (.inl h)
    · exact (eq_or_isZero_of_position_eq hx hy h).imp id .inr
  · rintro (rfl | h | ⟨hx, hy⟩)
    · cases x.isNaN <;> simp
    · exact .inl h
    · exact .inr ⟨⟨not_isNaN_of_isZero hx, not_isNaN_of_isZero hy⟩,
        (position_of_isZero hx).trans (position_of_isZero hy).symm⟩

end CampusQuery.Double
