import CampusQuery.Double.Text
import CampusQuery.Proofs.Double.Canonical

/-! The numbers that read as one double. Main statements: the decimal that is written for a double is
one of them, and none of them reads as another double too. -/

namespace CampusQuery.Double

def Decimals.value (d : Decimals) : ℚ := d.digits * 10 ^ d.scale

def Interval.Contains (i : Interval) (q : ℚ) : Prop :=
  if i.closed then i.low ≤ q * i.den ∧ q * i.den ≤ i.high else i.low < q * i.den ∧ q * i.den < i.high

/-- A fraction and its grid are blown up by one factor, so that both are whole. -/
theorem onGrid_cast (scale : ℤ) : ∃ k : ℚ, 0 < k ∧ ∀ num den : ℕ,
    ((onGrid num den scale).1 : ℚ) = num * k ∧ ((onGrid num den scale).2 : ℚ) = 10 ^ scale * den * k := by
  cases scale with
  | ofNat p => exact ⟨1, one_pos, fun num den => ⟨by simp [onGrid], by simp [onGrid]; ring⟩⟩
  | negSucc p =>
    refine ⟨10 ^ (p + 1), by positivity, fun num den => ⟨by simp [onGrid], ?_⟩⟩
    simp only [onGrid, zpow_negSucc]
    field_simp

theorem contains_of_gridPoint? {i : Interval} {scale : ℤ} {d : ℕ} (h : i.gridPoint? scale = some d) :
    i.Contains (Decimals.value ⟨d, scale⟩) := by
  obtain ⟨k, hk, hgrid⟩ := onGrid_cast scale
  have hmul (n : ℕ) : ((n * (onGrid i.value i.den scale).2 : ℕ) : ℚ) =
      Decimals.value ⟨n, scale⟩ * i.den * k := by
    rw [Nat.cast_mul, (hgrid _ _).2, Decimals.value]; ring
  -- what `gridPoint?` asks of a point, in whole numbers
  have hinside (n : ℕ) (hn : (if i.closed then
        decide ((onGrid i.low i.den scale).1 ≤ n * (onGrid i.value i.den scale).2) &&
          decide (n * (onGrid i.value i.den scale).2 ≤ (onGrid i.high i.den scale).1)
      else
        decide ((onGrid i.low i.den scale).1 < n * (onGrid i.value i.den scale).2) &&
          decide (n * (onGrid i.value i.den scale).2 < (onGrid i.high i.den scale).1)) = true) :
      i.Contains (Decimals.value ⟨n, scale⟩) := by
    unfold Interval.Contains
    split
    · next hc =>
      rw [if_pos hc, Bool.and_eq_true, decide_eq_true_eq, decide_eq_true_eq] at hn
      have hlow := (Nat.cast_le (α := ℚ)).2 hn.1
      have hhigh := (Nat.cast_le (α := ℚ)).2 hn.2
      rw [hmul, (hgrid _ _).1] at hlow hhigh
      exact ⟨le_of_mul_le_mul_right hlow hk, le_of_mul_le_mul_right hhigh hk⟩
    · next hc =>
      rw [if_neg hc, Bool.and_eq_true, decide_eq_true_eq, decide_eq_true_eq] at hn
      have hlow := (Nat.cast_lt (α := ℚ)).2 hn.1
      have hhigh := (Nat.cast_lt (α := ℚ)).2 hn.2
      rw [hmul, (hgrid _ _).1] at hlow hhigh
      exact ⟨lt_of_mul_lt_mul_right hlow hk.le, lt_of_mul_lt_mul_right hhigh hk.le⟩
  simp only [Interval.gridPoint?] at h
  split at h
  · next hb ha =>
    rw [Option.some.injEq] at h
    split at h
    · subst h; exact hinside _ hb
    · subst h; exact hinside _ ha
  · next hb _ => rw [Option.some.injEq] at h; subst h; exact hinside _ hb
  · next _ ha => rw [Option.some.injEq] at h; subst h; exact hinside _ ha
  · cases h

theorem contains_of_search {i : Interval} {steps : ℕ} {scale : ℤ} {d : Decimals}
    (h : i.search steps scale = some d) : i.Contains d.value := by
  induction steps generalizing scale with
  | zero => simp [Interval.search] at h
  | succ steps ih =>
    simp only [Interval.search] at h
    split at h
    · next d' hd =>
      rw [Option.some.injEq] at h
      subst h
      exact contains_of_gridPoint? hd
    · exact ih h

theorem contains_expansion {m e : ℕ} (hm : 0 < m) : (interval m e).Contains (expansion m e).value := by
  have hlow : 4 * m - (if m = 2 ^ 52 ∧ e ≠ 0 then 1 else 2) < 4 * m := by split <;> omega
  have hvalue : (expansion m e).value * ((interval m e).den : ℚ) = ((4 * m * 2 ^ (e - 1074) : ℕ) : ℚ) := by
    unfold expansion interval Decimals.value
    split
    · next he =>
      simp only [Nat.sub_eq_zero_of_le he]
      push_cast
      ring
    · next he =>
      obtain ⟨k, hk⟩ : ∃ k, 1074 - e = k := ⟨_, rfl⟩
      simp only [hk, Nat.sub_eq_zero_of_le (by omega : e ≤ 1074), zpow_neg, zpow_natCast]
      push_cast
      rw [show (10 : ℚ) = 5 * 2 by norm_num, mul_pow]
      field_simp
  have hlt : ((interval m e).low : ℚ) < (expansion m e).value * (interval m e).den := by
    rw [hvalue, Nat.cast_lt]
    exact Nat.mul_lt_mul_of_pos_right hlow (by positivity)
  have hgt : (expansion m e).value * (interval m e).den < ((interval m e).high : ℚ) := by
    rw [hvalue, Nat.cast_lt]
    exact Nat.mul_lt_mul_of_pos_right (by omega) (by positivity)
  unfold Interval.Contains
  split
  · exact ⟨hlt.le, hgt.le⟩
  · exact ⟨hlt, hgt⟩

theorem contains_shortest {m e : ℕ} (hm : 0 < m) : (interval m e).Contains (shortest m e).value := by
  unfold shortest
  dsimp only
  cases h : (interval m e).search 20 (((m.log2 + e + 1 : ℕ) - 1074 : ℤ) * 30103 / 100000 + 1) with
  | none => exact contains_expansion hm
  | some d => exact contains_of_search h

/-- The lower end of the interval, in quarters of a unit. -/
def quartersLow (m e : ℕ) : ℕ := (4 * m - if m = 2 ^ 52 ∧ e ≠ 0 then 1 else 2) * 2 ^ e

def quartersHigh (m e : ℕ) : ℕ := (4 * m + 2) * 2 ^ e

/-- In quarters of a unit all intervals are on one scale. The ends belong to those of even significand. -/
theorem quarters_of_contains {m e : ℕ} {q : ℚ} (h : (interval m e).Contains q) :
    quartersLow m e ≤ q * (4 * 2 ^ 1074) ∧ q * (4 * 2 ^ 1074) ≤ quartersHigh m e ∧
      (m % 2 = 1 → quartersLow m e < q * (4 * 2 ^ 1074) ∧ q * (4 * 2 ^ 1074) < quartersHigh m e) := by
  obtain ⟨k, hk⟩ : ∃ k, k = e - (e - 1074) := ⟨_, rfl⟩
  have hnum : 2 ^ (e - 1074) * 2 ^ k = 2 ^ e := by rw [← pow_add]; congr 1; omega
  have hden : (2 : ℚ) ^ (1074 - e) * 2 ^ k = 2 ^ 1074 := by rw [← pow_add]; congr 1; omega
  have hlow : (quartersLow m e : ℚ) = (interval m e).low * 2 ^ k := by
    rw [quartersLow, ← hnum, ← mul_assoc]; exact_mod_cast rfl
  have hhigh : (quartersHigh m e : ℚ) = (interval m e).high * 2 ^ k := by
    rw [quartersHigh, ← hnum, ← mul_assoc]; exact_mod_cast rfl
  have hq : q * (4 * 2 ^ 1074) = q * (interval m e).den * 2 ^ k := by
    have : ((interval m e).den : ℚ) = 4 * 2 ^ (1074 - e) := by exact_mod_cast rfl
    rw [this, ← hden]
    ring
  have hpos : (0 : ℚ) < 2 ^ k := by positivity
  rw [hlow, hhigh, hq]
  unfold Interval.Contains at h
  split at h
  · next hc =>
    have heven : m % 2 = 0 := of_decide_eq_true hc
    exact ⟨mul_le_mul_of_nonneg_right h.1 hpos.le, mul_le_mul_of_nonneg_right h.2 hpos.le, by omega⟩
  · have hlt := mul_lt_mul_of_pos_right h.1 hpos
    have hgt := mul_lt_mul_of_pos_right h.2 hpos
    exact ⟨hlt.le, hgt.le, fun _ => ⟨hlt, hgt⟩⟩

/-- The interval of a smaller double ends where that of a greater one has not begun, or where one of
the two significands is odd. -/
theorem quartersHigh_le_quartersLow {m e n f : ℕ} (hx : Canonical m e) (hy : Canonical n f)
    (h : m * 2 ^ e < n * 2 ^ f) :
    quartersHigh m e ≤ quartersLow n f ∧
      (quartersHigh m e = quartersLow n f → m % 2 = 1 ∨ n % 2 = 1) := by
  have hef := exponent_le_of_magnitude_le hy hx h.le
  obtain ⟨hm, -, -⟩ := hx
  obtain ⟨-, -, hf⟩ := hy
  unfold quartersHigh quartersLow
  have hp : 0 < 2 ^ e := by positivity
  rcases hef.eq_or_lt with rfl | hlt
  · have hmn : m < n := lt_of_mul_lt_mul_right h hp.le
    refine ⟨Nat.mul_le_mul_right _ (by split <;> omega), fun heq => ?_⟩
    have := Nat.eq_of_mul_eq_mul_right hp heq
    split at this <;> omega
  · have hlow : 2 ^ 54 - 1 ≤ 4 * n - if n = 2 ^ 52 ∧ f ≠ 0 then 1 else 2 := by split <;> omega
    have hpow : 2 ^ e * 2 ≤ 2 ^ f := by rw [← pow_succ]; exact Nat.pow_le_pow_right two_pos hlt
    have hbelow : (4 * m + 2) * 2 ^ e ≤ (2 ^ 54 - 1) * (2 ^ e * 2) := by
      rw [mul_comm (2 ^ e), ← mul_assoc]
      exact Nat.mul_le_mul_right _ (by omega)
    refine ⟨hbelow.trans (Nat.mul_le_mul hlow hpow), fun heq => .inl ?_⟩
    -- only the last significand before the power of two reaches the end
    have hge : (2 ^ 54 - 1) * 2 * 2 ^ e ≤ (4 * m + 2) * 2 ^ e := by
      rw [heq, mul_assoc, mul_comm 2]
      exact Nat.mul_le_mul hlow hpow
    have := Nat.le_of_mul_le_mul_right hge hp
    omega

theorem not_contains_of_lt {m e n f : ℕ} (hx : Canonical m e) (hy : Canonical n f) {q : ℚ}
    (h : m * 2 ^ e < n * 2 ^ f) (hq : (interval m e).Contains q) : ¬ (interval n f).Contains q := by
  intro hq'
  obtain ⟨hle, hodd⟩ := quartersHigh_le_quartersLow hx hy h
  have hle' : (quartersHigh m e : ℚ) ≤ quartersLow n f := Nat.cast_le.2 hle
  obtain ⟨-, hm, hmodd⟩ := quarters_of_contains hq
  obtain ⟨hn, -, hnodd⟩ := quarters_of_contains hq'
  have heq : (quartersHigh m e : ℚ) = quartersLow n f := le_antisymm hle' (hn.trans hm)
  rcases hodd (Nat.cast_injective heq) with ho | ho
  · exact absurd ((hmodd ho).2.trans_le (hle'.trans hn)) (lt_irrefl _)
  · exact absurd ((hnodd ho).1.trans_le (hm.trans hle')) (lt_irrefl _)

theorem pos_of_contains {m e : ℕ} {q : ℚ} (hm : 0 < m) (h : (interval m e).Contains q) : 0 < q := by
  have hlow : 0 < 4 * m - if m = 2 ^ 52 ∧ e ≠ 0 then 1 else 2 := by split <;> omega
  have hpos : (0 : ℚ) < quartersLow m e := by
    rw [quartersLow]; exact_mod_cast Nat.mul_pos hlow (by positivity)
  exact (mul_pos_iff_of_pos_right (by positivity)).1 (hpos.trans_le (quarters_of_contains h).1)

theorem shortest_pos {m : ℕ} (hm : 0 < m) (e : ℕ) : 0 < (shortest m e).value :=
  pos_of_contains hm (contains_shortest hm)

/-- No number reads as two doubles. -/
theorem eq_of_contains {m e n f : ℕ} (hx : Canonical m e) (hy : Canonical n f) {q : ℚ}
    (hq : (interval m e).Contains q) (hq' : (interval n f).Contains q) : m = n ∧ e = f := by
  rcases lt_trichotomy (m * 2 ^ e) (n * 2 ^ f) with h | h | h
  · exact absurd hq' (not_contains_of_lt hx hy h hq)
  · exact eq_of_magnitude_eq hx hy h
  · exact absurd hq (not_contains_of_lt hy hx h hq')

end CampusQuery.Double
