import CampusQuery.Proofs.Decimal.Cents

/-! Decimals and whole numbers. Main statements: a whole number that a significand has room for is read as itself,
and neither division with the places that there is room for nor rounding to cents leads past a whole number. -/

namespace CampusQuery.Decimal

section Reading

/-- All fives are worked off by halving. -/
theorem multiplyFives_two_pow (k f : ℕ) : multiplyFives f (k * 2 ^ f) f = (k, 0) := by
  induction f with
  | zero => exact congrArg (·, 0) (Nat.mul_one k)
  | succ f ih =>
    have htwice : k * 2 ^ (f + 1) = 2 * (k * 2 ^ f) := by ring
    unfold multiplyFives
    rw [htwice, if_pos (Nat.mul_mod_right 2 _), Nat.mul_div_cancel_left _ two_pos, Nat.add_sub_cancel]
    exact ih

theorem ofUnits?_whole {k e : ℕ} (he : e ≤ 1074) : ofUnits? (k * 2 ^ (1074 - e)) e = some (k, 0) := by
  unfold ofUnits?
  rw [if_pos he, multiplyFives_two_pow]
  rfl

/-- The significand of a whole number of `2 ^ p` units gives up all bits that stand for parts of that. -/
theorem significand_of_whole {m e k p : ℕ} (hc : Canonical m e) (hk : k < 2 ^ 53) (h : m * 2 ^ e = k * 2 ^ p) :
    e ≤ p ∧ m = k * 2 ^ (p - e) := by
  have he : e ≤ p := by
    by_contra hlarge
    have hm : 2 ^ 52 ≤ m := hc.2.2.resolve_left (by omega)
    have hpower : 2 ^ 53 * 2 ^ p ≤ m * 2 ^ e := by
      calc
        2 ^ 53 * 2 ^ p = 2 ^ 52 * 2 ^ (p + 1) := by ring
        _ ≤ m * 2 ^ e := Double.mul_two_pow_le_mul hm (by omega)
    rw [h] at hpower
    exact absurd (Nat.le_of_mul_le_mul_right hpower (Nat.two_pow_pos p)) (not_le.2 hk)
  refine ⟨he, Nat.eq_of_mul_eq_mul_right (Nat.two_pow_pos e) ?_⟩
  rw [h, Nat.mul_assoc, ← pow_add, Nat.sub_add_cancel he]

/-- A double that stands for a whole number has that many units, and its sign. -/
theorem parts_of_value_eq {s : Bool} {m e : ℕ} {hc : Canonical m e} {n : ℤ}
    (h : (Double.finite s m e hc).value = n) :
    m * 2 ^ e = n.natAbs * Double.unitsPerOne ∧ (m ≠ 0 → s = decide (n < 0)) := by
  have hunit : (0 : ℚ) < 2 ^ 1074 := pow_pos two_pos 1074
  rw [Double.value_finite] at h
  have habs : ((m * 2 ^ e : ℕ) / 2 ^ 1074 : ℚ) = n.natAbs := by
    have hnonneg : (0 : ℚ) ≤ (m * 2 ^ e : ℕ) / 2 ^ 1074 := div_nonneg (Nat.cast_nonneg _) hunit.le
    rw [Nat.cast_natAbs, Int.cast_abs, ← h, abs_signed, abs_of_nonneg hnonneg]
  constructor
  · rw [div_eq_iff hunit.ne'] at habs
    refine Nat.cast_injective (R := ℚ) ?_
    rw [habs, Nat.cast_mul, Double.cast_unitsPerOne]
  · intro hm
    have hpos : (0 : ℚ) < (m * 2 ^ e : ℕ) / 2 ^ 1074 :=
      div_pos (Nat.cast_pos.2 (Nat.mul_pos (Nat.pos_of_ne_zero hm) (Nat.two_pow_pos e))) hunit
    cases s with
    | false =>
      have hn : (0 : ℚ) < n := h ▸ hpos
      exact (decide_eq_false (not_lt.2 (Int.cast_pos.1 hn).le)).symm
    | true =>
      have hn : (n : ℚ) < 0 := h ▸ neg_neg_iff_pos.2 hpos
      exact (decide_eq_true (Int.cast_lt_zero.1 hn)).symm

theorem ofDouble?_of_value_eq {x : Double} {n : ℤ} (hx : x.isFinite = true) (hvalue : x.value = n)
    (hn : n.natAbs < 2 ^ 53) : ofDouble? x = some ⟨n, 0⟩ := by
  cases x with
  | finite s m e hc =>
    obtain ⟨hmagnitude, hsign⟩ := parts_of_value_eq hvalue
    obtain ⟨p, hp⟩ : ∃ p, p = 1074 := ⟨_, rfl⟩
    rw [Double.unitsPerOne_eq hp] at hmagnitude
    obtain ⟨he, hm⟩ := significand_of_whole hc hn hmagnitude
    subst hp
    unfold ofDouble?
    dsimp only
    split_ifs with hzero
    · rw [hzero, eq_comm, Nat.mul_eq_zero, Int.natAbs_eq_zero] at hm
      obtain rfl := hm.resolve_right (pow_ne_zero _ two_ne_zero)
      rfl
    · rw [hm, ofUnits?_whole he, Option.map_some, hsign hzero, ofMagnitude_natAbs]
  | _ => cases hx

end Reading

section Rounding

variable {v : ℚ} {k : ℕ}

theorem natCast_le_halfEven (hv : 0 ≤ v) (h : (k : ℚ) ≤ v) : k ≤ halfEven v :=
  (le_halfEven_iff hv k).2 (.inl (by linarith))

theorem halfEven_le (hv : 0 ≤ v) (h : v ≤ k) : halfEven v ≤ k := by
  by_contra hlt
  rcases (le_halfEven_iff hv (k + 1)).1 (by omega) with hgt | ⟨heq, -⟩ <;> push_cast at * <;> linarith

theorem natCast_le_fitted (hv : 0 ≤ v) (h : (k : ℚ) ≤ v) : k ≤ fitted v := by
  have hpow : (0 : ℚ) < 10 ^ places v := by positivity
  have hunits : k * 10 ^ places v ≤ halfEven (v * 10 ^ places v) := by
    refine natCast_le_halfEven (by positivity) ?_
    push_cast
    exact mul_le_mul_of_nonneg_right h hpow.le
  rw [fitted, le_div_iff₀ hpow]
  exact_mod_cast hunits

theorem fitted_le_natCast (hv : 0 ≤ v) (h : v ≤ k) : fitted v ≤ k := by
  have hpow : (0 : ℚ) < 10 ^ places v := by positivity
  have hunits : halfEven (v * 10 ^ places v) ≤ k * 10 ^ places v := by
    refine halfEven_le (by positivity) ?_
    push_cast
    exact mul_le_mul_of_nonneg_right h hpow.le
  rw [fitted, div_le_iff₀ hpow]
  exact_mod_cast hunits

/-- A number stays between whole numbers when its magnitude does. -/
theorem signed_bounds {w : ℚ} (hw : 0 ≤ w) (hle : ∀ k : ℕ, (k : ℚ) ≤ |v| → (k : ℚ) ≤ w)
    (hge : ∀ k : ℕ, |v| ≤ k → w ≤ k) (a : ℤ) :
    ((a : ℚ) ≤ v → (a : ℚ) ≤ signed (decide (v < 0)) w) ∧ (v ≤ a → signed (decide (v < 0)) w ≤ a) := by
  obtain ⟨k, ha⟩ := a.eq_nat_or_neg
  have hk : (0 : ℚ) ≤ k := Nat.cast_nonneg k
  have hle := hle k
  have hge := hge k
  unfold signed
  rcases lt_or_ge v 0 with hv | hv
  · rw [decide_eq_true hv, if_pos rfl]
    rw [abs_of_neg hv] at hle hge
    rcases ha with rfl | rfl
    · rw [Int.cast_natCast]
      exact ⟨fun h => absurd (hk.trans h) (not_le.2 hv), fun _ => by linarith⟩
    · rw [Int.cast_neg, Int.cast_natCast]
      exact ⟨fun h => neg_le_neg (hge (neg_le.1 h)), fun h => neg_le_neg (hle (le_neg.1 h))⟩
  · rw [decide_eq_false (not_lt.2 hv), if_neg Bool.false_ne_true]
    rw [abs_of_nonneg hv] at hle hge
    rcases ha with rfl | rfl
    · rw [Int.cast_natCast]
      exact ⟨hle, hge⟩
    · rw [Int.cast_neg, Int.cast_natCast]
      refine ⟨fun _ => by linarith, fun h => ?_⟩
      have hzero : (k : ℚ) = 0 := by linarith
      have hsmall := hge (by linarith)
      linarith

/-- A number that is rounded to the places that there is room for and then to cents. -/
def roundedTwice (v : ℚ) : ℚ := signed (decide (v < 0)) (hundredths (fitted |v|) / 100)

theorem roundedTwice_bounds (v : ℚ) (a : ℤ) :
    ((a : ℚ) ≤ v → (a : ℚ) ≤ roundedTwice v) ∧ (v ≤ a → roundedTwice v ≤ a) := by
  have hfitted : 0 ≤ fitted |v| := by
    unfold fitted
    positivity
  refine signed_bounds (by positivity) (fun k hk => ?_) (fun k hk => ?_) a
  · have hcents := mul_hundred_le_hundredths (v := fitted |v|) (k := k)
      (by rw [abs_of_nonneg hfitted]; exact natCast_le_fitted (abs_nonneg v) hk)
    rw [le_div_iff₀ (by norm_num)]
    exact_mod_cast hcents
  · have hcents := hundredths_le_mul_hundred (v := fitted |v|) (k := k)
      (by rw [abs_of_nonneg hfitted]; exact fitted_le_natCast (abs_nonneg v) hk)
    rw [div_le_iff₀ (by norm_num)]
    exact_mod_cast hcents

end Rounding

end CampusQuery.Decimal
