import CampusQuery.Proofs.Double.Closest
import Mathlib.Order.Interval.Set.UnorderedInterval

/-! How far doubles are apart. Main statements: two doubles are apart by at least the `2 ^ 53`rd part of either, a
number that is not too small is rounded by less than that part of it, and an error of less than that leads no further
than to the double next to a closest one. -/

namespace CampusQuery.Double

section Gap

variable {x y : Double} {m e n f : ℕ}

theorem mul_magnitude_le (hx : Canonical m e) (hy : Canonical n f) (h : m * 2 ^ e < n * 2 ^ f) :
    2 ^ 53 * (m * 2 ^ e) ≤ (2 ^ 53 - 1) * (n * 2 ^ f) := by
  have hm : m < 2 ^ 53 := hx.1
  rcases (exponent_le_of_magnitude_le hy hx h.le).eq_or_lt with rfl | hlt
  · have hmn : m < n := Nat.lt_of_mul_lt_mul_right h
    have hn : n < 2 ^ 53 := hy.1
    have hsignificand : 2 ^ 53 * m ≤ (2 ^ 53 - 1) * n := by omega
    rw [← Nat.mul_assoc, ← Nat.mul_assoc]
    exact Nat.mul_le_mul_right _ hsignificand
  · -- all bits of the smaller one lie below the first bit of the greater one
    have hn : 2 ^ 52 ≤ n := hy.2.2.resolve_left (by omega)
    have hpower : 2 ^ 53 * 2 ^ e ≤ n * 2 ^ f := by
      calc
        2 ^ 53 * 2 ^ e = 2 ^ 52 * 2 ^ (e + 1) := by ring
        _ ≤ n * 2 ^ f := mul_two_pow_le_mul hn hlt
    calc
      2 ^ 53 * (m * 2 ^ e) ≤ 2 ^ 53 * ((2 ^ 53 - 1) * 2 ^ e) :=
        Nat.mul_le_mul_left _ (Nat.mul_le_mul_right _ (by omega))
      _ = (2 ^ 53 - 1) * (2 ^ 53 * 2 ^ e) := by ring
      _ ≤ (2 ^ 53 - 1) * (n * 2 ^ f) := Nat.mul_le_mul_left _ hpower

theorem abs_position_le (hx : x.isFinite = true) (hy : y.isFinite = true) (h : x.position < y.position) :
    |x.position| ≤ 2 ^ 53 * (y.position - x.position) ∧ |y.position| ≤ 2 ^ 53 * (y.position - x.position) := by
  cases x with
  | finite s m e hcx =>
    cases y with
    | finite t n f hcy =>
      have hxabs := natAbs_position (finite s m e hcx)
      have hyabs := natAbs_position (finite t n f hcy)
      have hless := mul_magnitude_le hcx hcy
      have hgreater := mul_magnitude_le hcy hcx
      simp only [magnitude] at hxabs hyabs
      rw [Int.abs_eq_natAbs, Int.abs_eq_natAbs]
      generalize m * 2 ^ e = a at *
      generalize n * 2 ^ f = b at *
      omega
    | _ => cases hy
  | _ => cases hx

theorem abs_value_le (hx : x.isFinite = true) (hy : y.isFinite = true) (h : x.value < y.value) :
    |x.value| ≤ 2 ^ 53 * (y.value - x.value) ∧ |y.value| ≤ 2 ^ 53 * (y.value - x.value) := by
  have hunit : (0 : ℚ) < 2 ^ 1074 := pow_pos two_pos 1074
  unfold value at h ⊢
  rw [div_lt_div_iff_of_pos_right hunit, Int.cast_lt] at h
  obtain ⟨hxgap, hygap⟩ := abs_position_le hx hy h
  rw [← sub_div, ← mul_div_assoc, abs_div, abs_div, abs_of_pos hunit, div_le_div_iff_of_pos_right hunit,
    div_le_div_iff_of_pos_right hunit]
  exact ⟨by exact_mod_cast hxgap, by exact_mod_cast hygap⟩

end Gap

section Error

theorem abs_value_le_max {x : Double} (hx : x.isFinite = true) : |x.value| ≤ maxMagnitude / 2 ^ 1074 := by
  cases x with
  | finite s m e hc =>
    rw [value_finite, abs_signed, abs_of_nonneg (by positivity)]
    exact div_le_div_of_nonneg_right (Nat.cast_le.2 (magnitude_le_max hc)) (by positivity)
  | _ => cases hx

/-- A magnitude that has no bits below the last one is rounded by less than its `2 ^ 53`rd part. -/
theorem rounded_eq_or_abs_sub_lt {num den : ℕ} (hden : 0 < den) (h : 2 ^ 52 ≤ num / den) :
    (((rounded num den).1 * 2 ^ (rounded num den).2 : ℕ) : ℚ) = num / den ∨
      2 ^ 53 * |(((rounded num den).1 * 2 ^ (rounded num den).2 : ℕ) : ℚ) - num / den| < num / den := by
  rw [magnitude_rounded]
  have hlog : 52 ≤ (num / den).log2 := (Nat.le_log2 (by omega)).2 h
  obtain ⟨e, he⟩ := Nat.exists_eq_add_of_le' hlog
  have hfirst : 2 ^ 52 * 2 ^ e ≤ num / den := by
    rw [← pow_add, Nat.add_comm, ← he]
    exact Nat.log2_self_le (by omega)
  rw [he, Nat.add_sub_cancel]
  have hunit : 0 < den * 2 ^ e := by positivity
  have hhalf := abs_roundHalfEven_sub_le num hunit
  have hexact (hdvd : den * 2 ^ e ∣ num) := roundHalfEven_of_dvd hunit hdvd
  generalize roundHalfEven num (den * 2 ^ e) = r at hhalf hexact ⊢
  rcases (Nat.le_div_iff_mul_le hden).1 hfirst |>.eq_or_lt with heq | hlt
  · left
    rw [eq_div_iff (by positivity), ← hexact ⟨2 ^ 52, by rw [← heq]; ring⟩]
    push_cast
    ring
  · right
    have hscale : ((r * 2 ^ e : ℕ) : ℚ) - num / den = (r - num / (den * 2 ^ e : ℕ)) * 2 ^ e := by
      push_cast
      field_simp
    have hpower : (2 ^ 52 * 2 ^ e : ℚ) < num / den := by
      rw [lt_div_iff₀ (by positivity)]
      exact_mod_cast hlt
    have hpos : (0 : ℚ) < 2 ^ e := by positivity
    rw [hscale, abs_mul, abs_of_pos hpos]
    calc
      (2 : ℚ) ^ 53 * (|(r : ℚ) - num / (den * 2 ^ e : ℕ)| * 2 ^ e) ≤ (2 : ℚ) ^ 53 * (1 / 2 * 2 ^ e) := by gcongr
      _ = (2 : ℚ) ^ 52 * 2 ^ e := by ring
      _ < num / den := hpower

theorem units_ratio (num den : ℕ) : ((num * unitsPerOne : ℕ) : ℚ) / den / 2 ^ 1074 = num / den := by
  rw [Nat.cast_mul, cast_unitsPerOne, div_right_comm, mul_div_cancel_right₀]
  exact pow_ne_zero _ two_ne_zero

section Ratio

variable {num den k : ℕ}

theorem units_le_max (hk : k ≤ 1023) (h : num ≤ 2 ^ k * den) : num * unitsPerOne ≤ maxMagnitude * den := by
  calc
    num * unitsPerOne ≤ 2 ^ k * den * unitsPerOne := Nat.mul_le_mul_right _ h
    _ = 2 ^ k * unitsPerOne * den := Nat.mul_right_comm _ _ _
    _ ≤ maxMagnitude * den := Nat.mul_le_mul_right _ (two_pow_mul_units_le_max hk)

theorem isClosestTo_ofRatio (negative : Bool) (hk : k ≤ 1023) (hden : 0 < den) (h : num ≤ 2 ^ k * den) :
    (ofRatio negative num den).IsClosestTo (signed negative (num / den)) :=
  units_ratio num den ▸ isClosestTo_ofUnits hden (units_le_max hk h)

/-- A ratio that is not less than one is met, or is off by less than its `2 ^ 53`rd part. -/
theorem ofRatio_eq_or_abs_sub_lt (negative : Bool) (hk : k ≤ 1023) (hden : 0 < den) (h : num ≤ 2 ^ k * den)
    (hone : den ≤ num) : (ofRatio negative num den).value = signed negative (num / den) ∨
      2 ^ 53 * |(ofRatio negative num den).value - signed negative (num / den)| < num / den := by
  have hunit : (0 : ℚ) < 2 ^ 1074 := pow_pos two_pos 1074
  have hnormal : 2 ^ 52 ≤ num * unitsPerOne / den := by
    rw [Nat.le_div_iff_mul_le hden, Nat.mul_comm num]
    exact Nat.mul_le_mul (two_pow_le_unitsPerOne (by decide)) hone
  have hround := rounded_eq_or_abs_sub_lt hden hnormal
  rw [ofRatio, ofUnits_eq, dif_pos (canonical_rounded hden (units_le_max hk h)), value_finite,
    ← units_ratio num den, abs_signed_sub_signed, ← sub_div, abs_div, abs_of_pos hunit, ← mul_div_assoc,
    div_lt_div_iff_of_pos_right hunit]
  exact hround.imp_left fun hexact => by rw [hexact]

end Ratio

section Whole

variable {n : ℤ} {k : ℕ}

theorem isClosestTo_ofInt (hk : k ≤ 1023) (h : n.natAbs ≤ 2 ^ k) : (ofInt n).IsClosestTo n := by
  have hclosest := isClosestTo_ofRatio (decide (n < 0)) hk one_pos (h.trans_eq (Nat.mul_one _).symm)
  rwa [signed_natAbs, Nat.cast_one, div_one] at hclosest

theorem ofInt_eq_or_abs_sub_lt (hk : k ≤ 1023) (h : n.natAbs ≤ 2 ^ k) :
    (ofInt n).value = n ∨ 2 ^ 53 * |(ofInt n).value - n| < |(n : ℚ)| := by
  rcases eq_or_ne n 0 with rfl | hne
  · exact .inl (value_ofInt (by decide)).2
  · have hround := ofRatio_eq_or_abs_sub_lt (decide (n < 0)) hk one_pos (h.trans_eq (Nat.mul_one _).symm)
      (Int.natAbs_pos.2 hne)
    rwa [signed_natAbs, Nat.cast_one, div_one, div_one, Nat.cast_natAbs, Int.cast_abs] at hround

end Whole

/-- There is a closest double to each number that is not too large. -/
theorem exists_isClosestTo {v : ℚ} {k : ℕ} (hk : k ≤ 1023) (h : |v| ≤ 2 ^ k) : ∃ x : Double, x.IsClosestTo v := by
  have hnum : v.num.natAbs ≤ 2 ^ k * v.den := by
    rw [← Rat.num_div_den v, abs_div, Nat.abs_cast, div_le_iff₀ (Nat.cast_pos.2 v.den_pos)] at h
    rw [← Int.cast_abs, Int.abs_eq_natAbs] at h
    exact_mod_cast h
  have hclosest := isClosestTo_ofRatio (decide (v.num < 0)) hk v.den_pos hnum
  rw [signed_natAbs, Rat.num_div_den] at hclosest
  exact ⟨_, hclosest⟩

end Error

section Steps

variable {x y z : Double} {v w : ℚ}

/-- No finite double lies between the two. -/
def Adjoins (x y : Double) : Prop := ∀ z : Double, z.isFinite = true → z.value ∉ Set.uIoo x.value y.value

/-- There are closest doubles, and no double lies between this one and any of them. -/
structure IsNextToClosest (x : Double) (v : ℚ) : Prop where
  isFinite : x.isFinite = true
  exists_closest : ∃ y : Double, y.IsClosestTo v
  adjoins : ∀ y : Double, y.IsClosestTo v → x.Adjoins y

theorem IsClosestTo.of_value_eq (hx : x.IsClosestTo v) (hy : y.isFinite = true) (h : y.value = x.value) :
    y.IsClosestTo v :=
  ⟨hy, fun z hz => h ▸ hx.2 z hz⟩

theorem IsClosestTo.mul_nonneg (hx : x.IsClosestTo v) (hz : z.isFinite = true) :
    0 ≤ (z.value - x.value) * (x.value + z.value - 2 * v) := by
  have hsquares := sq_le_sq.2 (hx.2 z hz)
  linarith

theorem IsClosestTo.two_mul_le (hx : x.IsClosestTo v) (hz : z.isFinite = true) (h : x.value < z.value) :
    2 * v ≤ x.value + z.value :=
  sub_nonneg.1 (nonneg_of_mul_nonneg_right (hx.mul_nonneg hz) (sub_pos.2 h))

theorem IsClosestTo.le_two_mul (hx : x.IsClosestTo v) (hz : z.isFinite = true) (h : z.value < x.value) :
    x.value + z.value ≤ 2 * v :=
  sub_nonpos.1 (nonpos_of_mul_nonneg_right (hx.mul_nonneg hz) (sub_neg.2 h))

/-- The middles of two neighbouring gaps are apart by at least the `2 ^ 53`rd part of what lies past them. -/
theorem middles_apart {a b c : ℚ} (hac : a < c) (hcb : c < b) (hc : |c| ≤ 2 ^ 53 * (c - a))
    (hb : |b| ≤ 2 ^ 53 * (b - c)) (hw : 2 * w ≤ a + c) (hv : c + b ≤ 2 * v) : w ≠ v ∧ |v| ≤ 2 ^ 53 * |w - v| := by
  have hlt : w < v := by linarith
  refine ⟨hlt.ne, ?_⟩
  rw [abs_sub_comm, abs_of_pos (sub_pos.2 hlt)]
  rcases abs_cases v with ⟨hsign, -⟩ | ⟨hsign, -⟩
  · linarith [le_abs_self b, le_abs_self c]
  · linarith [neg_abs_le b, neg_abs_le c]

/-- An error of less than the `2 ^ 53`rd part leads no further than to the next double. -/
theorem IsClosestTo.adjoins (hx : x.IsClosestTo w) (hy : y.IsClosestTo v)
    (hnear : w = v ∨ 2 ^ 53 * |w - v| < |v|) : x.Adjoins y := by
  intro z hz hbetween
  -- the number is past the middle between `z` and `y`, and what it is taken for is not past that between `x` and `z`
  have hapart : w ≠ v ∧ |v| ≤ 2 ^ 53 * |w - v| := by
    rcases le_total x.value y.value with hle | hle
    · rw [Set.uIoo_of_le hle] at hbetween
      obtain ⟨hxz, hzy⟩ := hbetween
      exact middles_apart hxz hzy (abs_value_le hx.1 hz hxz).2 (abs_value_le hz hy.1 hzy).2
        (hx.two_mul_le hz hxz) (by linarith [hy.le_two_mul hz hzy])
    · rw [Set.uIoo_of_ge hle] at hbetween
      obtain ⟨hyz, hzx⟩ := hbetween
      have hzgap := (abs_value_le hz hx.1 hzx).1
      have hygap := (abs_value_le hy.1 hz hyz).1
      have hmirrored : -w ≠ -v ∧ |-v| ≤ 2 ^ 53 * |-w - -v| :=
        middles_apart (neg_lt_neg hzx) (neg_lt_neg hyz) (by rw [abs_neg]; linarith) (by rw [abs_neg]; linarith)
          (by linarith [hx.le_two_mul hz hzx]) (by linarith [hy.two_mul_le hz hyz])
      rwa [neg_injective.ne_iff, abs_neg, ← neg_sub', abs_neg] at hmirrored
  rcases hnear with heq | hlt
  · exact hapart.1 heq
  · exact hapart.2.not_gt hlt

end Steps

end CampusQuery.Double
