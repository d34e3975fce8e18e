import CampusQuery.Proofs.Double.Closest

/-! Sums of decimals. Main statement: as long as a coefficient has room for the sum of the magnitudes on the
finest of the scales, each sum on the way is there, and is exact. -/

namespace CampusQuery.Decimal

/-- The number that a decimal stands for. -/
def value (d : Decimal) : ℚ := d.coefficient / 10 ^ d.scale

theorem value_eq_zero {d : Decimal} (h : d.coefficient = 0) : d.value = 0 := by
  rw [value, h, Int.cast_zero, zero_div]

theorem coefficient_eq_zero_iff (d : Decimal) : d.coefficient = 0 ↔ d.value = 0 := by
  rw [value, div_eq_zero_iff, Int.cast_eq_zero, or_iff_left (by positivity)]

theorem value_lt_zero_iff (d : Decimal) : d.value < 0 ↔ d.coefficient < 0 := by
  rw [value, div_lt_iff₀ (by positivity), zero_mul, Int.cast_lt_zero]

theorem cast_coefficientLimit : (coefficientLimit : ℚ) = 2 ^ 96 := by
  unfold coefficientLimit
  push_cast
  rfl

theorem value_ofMagnitude (negative : Bool) (magnitude scale : ℕ) :
    (ofMagnitude negative magnitude scale).value = signed negative (magnitude / 10 ^ scale) :=
  (signed_natCast_div negative magnitude _).symm

theorem ofMagnitude_natAbs (n : ℤ) (scale : ℕ) : ofMagnitude (decide (n < 0)) n.natAbs scale = ⟨n, scale⟩ := by
  have hsign : (if decide (n < 0) = true then -(n.natAbs : ℤ) else n.natAbs) = n := by
    simp only [decide_eq_true_eq]
    split_ifs <;> omega
  exact congrArg (Decimal.mk · scale) hsign

/-- On a finer scale the coefficient is followed by zeros. -/
theorem value_mul_ten_pow {d : Decimal} {s : ℕ} (h : d.scale ≤ s) :
    d.value * 10 ^ s = (d.coefficient * (10 ^ (s - d.scale) : ℕ) : ℤ) := by
  obtain ⟨k, rfl⟩ := Nat.exists_eq_add_of_le h
  rw [Nat.add_sub_cancel_left, pow_add, ← mul_assoc]
  unfold value
  push_cast
  field_simp

theorem fit?_of_lt {magnitude : ℕ} (h : magnitude < coefficientLimit) (scale : ℕ) :
    fit? magnitude scale scale = some (magnitude, scale) := by
  have hround : roundHalfEven magnitude 1 = magnitude := by
    simpa using roundHalfEven_of_dvd one_pos (one_dvd magnitude)
  cases scale with
  | zero =>
    unfold fit?
    rw [pow_zero, hround]
    exact if_pos h
  | succ s =>
    unfold fit?
    rw [Nat.sub_self, pow_zero, hround]
    exact if_pos h

/-- The scale of an exact sum. A zero has no say in it. -/
def sumScale (a b : Decimal) : ℕ :=
  if a.coefficient = 0 then b.scale else if b.coefficient = 0 then a.scale else max a.scale b.scale

variable {s : ℕ}

theorem sumScale_le {a b : Decimal} (ha : a.scale ≤ s) (hb : b.scale ≤ s) : sumScale a b ≤ s := by
  unfold sumScale
  split_ifs
  · exact hb
  · exact ha
  · exact max_le ha hb

theorem add?_exact {a b : Decimal} (ha : a.scale ≤ s) (hb : b.scale ≤ s)
    (hroom : (|a.value| + |b.value|) * 10 ^ s < coefficientLimit) :
    ∃ c, add? a b = some c ∧ c.value = a.value + b.value ∧ c.scale = sumScale a b := by
  unfold add? sumScale
  split_ifs with hzero hzero'
  · exact ⟨b, rfl, by rw [value_eq_zero hzero, zero_add], rfl⟩
  · exact ⟨a, rfl, by rw [value_eq_zero hzero', add_zero], rfl⟩
  · obtain ⟨t, ht⟩ : ∃ t, max a.scale b.scale = t := ⟨_, rfl⟩
    obtain ⟨n, hn⟩ : ∃ n : ℤ, a.coefficient * (10 ^ (t - a.scale) : ℕ) +
        b.coefficient * (10 ^ (t - b.scale) : ℕ) = n := ⟨_, rfl⟩
    have hsum : (a.value + b.value) * 10 ^ t = n := by
      rw [add_mul, value_mul_ten_pow (by omega), value_mul_ten_pow (by omega), ← Int.cast_add, hn]
    have hts : t ≤ s := by omega
    have hlt : n.natAbs < coefficientLimit := by
      have hbound : (n.natAbs : ℚ) < coefficientLimit := by
        rw [Nat.cast_natAbs, Int.cast_abs, ← hsum, abs_mul, abs_of_pos (by positivity : (0 : ℚ) < 10 ^ t)]
        calc
          |a.value + b.value| * 10 ^ t ≤ (|a.value| + |b.value|) * 10 ^ s := by
            gcongr
            · exact abs_add_le _ _
            · norm_num
          _ < coefficientLimit := hroom
      exact Nat.cast_lt.1 hbound
    dsimp only
    rw [ht, hn, fit?_of_lt hlt]
    refine ⟨_, rfl, ?_, rfl⟩
    dsimp only
    rw [ofMagnitude_natAbs, value, ← hsum]
    exact mul_div_cancel_right₀ _ (by positivity)

theorem exists_foldlM_add? {ds : List Decimal} (hscale : ∀ d ∈ ds, d.scale ≤ s) (start : Decimal)
    (hstart : start.scale ≤ s)
    (hroom : (|start.value| + (ds.map fun d => |d.value|).sum) * 10 ^ s < coefficientLimit) :
    ∃ total, ds.foldlM add? start = some total ∧ total.value = start.value + (ds.map value).sum ∧
      total.scale ≤ s := by
  induction ds generalizing start with
  | nil => exact ⟨start, rfl, (add_zero _).symm, hstart⟩
  | cons d ds ih =>
    obtain ⟨hd, hrest⟩ := List.forall_mem_cons.1 hscale
    rw [List.map_cons, List.sum_cons, ← add_assoc] at hroom
    have hnonneg : 0 ≤ (ds.map fun d => |d.value|).sum := by
      refine List.sum_nonneg fun x hx => ?_
      obtain ⟨d, -, rfl⟩ := List.mem_map.1 hx
      exact abs_nonneg _
    have hunit : (0 : ℚ) ≤ 10 ^ s := by positivity
    obtain ⟨next, hnext, hvalue, hnextScale⟩ := add?_exact hstart hd
      ((mul_le_mul_of_nonneg_right (le_add_of_nonneg_right hnonneg) hunit).trans_lt hroom)
    have hnextScale := hnextScale.trans_le (sumScale_le hstart hd)
    have hnextRoom : (|next.value| + (ds.map fun d => |d.value|).sum) * 10 ^ s < coefficientLimit := by
      refine lt_of_le_of_lt (mul_le_mul_of_nonneg_right ?_ hunit) hroom
      rw [hvalue]
      exact add_le_add_left (abs_add_le _ _) _
    obtain ⟨total, htotal, hsum, htotalScale⟩ := ih hrest next hnextScale hnextRoom
    refine ⟨total, ?_, ?_, htotalScale⟩
    · rw [List.foldlM_cons, hnext]
      exact htotal
    · rw [hsum, hvalue, List.map_cons, List.sum_cons, add_assoc]

theorem exists_sum? {ds : List Decimal} (hscale : ∀ d ∈ ds, d.scale ≤ s)
    (hroom : (ds.map fun d => |d.value|).sum * 10 ^ s < coefficientLimit) :
    ∃ total, sum? ds = some total ∧ total.value = (ds.map value).sum ∧ total.scale ≤ s := by
  have hzero : zero.value = 0 := value_eq_zero rfl
  obtain ⟨total, htotal, hvalue, htotalScale⟩ := exists_foldlM_add? hscale zero (Nat.zero_le s)
    (by rwa [hzero, abs_zero, zero_add])
  exact ⟨total, htotal, by rw [hvalue, hzero, zero_add], htotalScale⟩

/-- The sum is exact where there is room for it. -/
theorem sum?_exact {ds : List Decimal} (hscale : ∀ d ∈ ds, d.scale ≤ s)
    (hroom : (ds.map fun d => |d.value|).sum * 10 ^ s < coefficientLimit) :
    ∃ total, sum? ds = some total ∧ total.value = (ds.map value).sum := by
  obtain ⟨total, htotal, hvalue, -⟩ := exists_sum? hscale hroom
  exact ⟨total, htotal, hvalue⟩

end CampusQuery.Decimal
