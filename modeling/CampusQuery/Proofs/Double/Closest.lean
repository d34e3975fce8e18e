import CampusQuery.Proofs.Double.Finite

/-! Doubles that are closest to a number. Main statements: rounding once gives such a double, and so does
dividing one double by another; to a number of hundredths no two different ones are closest. -/

namespace CampusQuery

theorem le_roundHalfEven_iff (num : ℕ) {den : ℕ} (hden : 0 < den) (k : ℕ) :
    k ≤ roundHalfEven num den ↔ 2 * k * den < 2 * num + den ∨ 2 * k * den = 2 * num + den ∧ k % 2 = 0 := by
  have hsplit : den * (num / den) + num % den = num := Nat.div_add_mod num den
  have hlt : num % den < den := Nat.mod_lt num hden
  unfold roundHalfEven
  dsimp only
  generalize num / den = q at hsplit ⊢
  generalize num % den = r at hsplit hlt ⊢
  rcases lt_trichotomy k (q + 1) with hk | rfl | hk
  · have hle : k * den ≤ den * q := by
      rw [Nat.mul_comm den]
      exact Nat.mul_le_mul_right den (by omega)
    have hround : k ≤ if 2 * r < den then q else if den < 2 * r then q + 1 else q + q % 2 := by
      split_ifs <;> omega
    refine iff_of_true hround (.inl ?_)
    rw [Nat.mul_assoc]
    omega
  · have hnext : 2 * (q + 1) * den = 2 * (den * q) + 2 * den := by ring
    rw [hnext]
    split_ifs <;> omega
  · have hge : den * q + 2 * den ≤ k * den := by
      calc
        den * q + 2 * den = (q + 2) * den := by ring
        _ ≤ k * den := Nat.mul_le_mul_right den hk
    refine iff_of_false ?_ ?_
    · split_ifs <;> omega
    · rw [Nat.mul_assoc]
      omega

theorem abs_roundHalfEven_sub_le (num : ℕ) {den : ℕ} (hden : 0 < den) :
    |(roundHalfEven num den : ℚ) - num / den| ≤ 1 / 2 := by
  have hpos : (0 : ℚ) < den := Nat.cast_pos.2 hden
  have hhigh : 2 * roundHalfEven num den * den ≤ 2 * num + den := by
    have := (le_roundHalfEven_iff num hden _).1 le_rfl
    omega
  have hlow : 2 * num + den ≤ 2 * (roundHalfEven num den + 1) * den := by
    have := mt (le_roundHalfEven_iff num hden (roundHalfEven num den + 1)).2 (by omega)
    omega
  have hlow' : (2 * num + den : ℚ) ≤ 2 * (roundHalfEven num den + 1) * den := by exact_mod_cast hlow
  have hhigh' : (2 * roundHalfEven num den * den : ℚ) ≤ 2 * num + den := by exact_mod_cast hhigh
  have hdiv : (num / den : ℚ) * den = num := div_mul_cancel₀ _ hpos.ne'
  refine abs_le.2 ⟨?_, ?_⟩ <;> nlinarith

/-- No whole number is closer. -/
theorem abs_roundHalfEven_sub_le_abs (num : ℕ) {den : ℕ} (hden : 0 < den) (k : ℤ) :
    |(roundHalfEven num den : ℚ) - num / den| ≤ |(k : ℚ) - num / den| := by
  have hhalf := abs_roundHalfEven_sub_le num hden
  rcases eq_or_ne (roundHalfEven num den : ℤ) k with rfl | hne
  · exact le_of_eq (by push_cast; rfl)
  · have hone : (1 : ℚ) ≤ |(k : ℚ) - roundHalfEven num den| := by
      have := Int.one_le_abs (sub_ne_zero.2 hne.symm)
      exact_mod_cast this
    have htriangle := abs_sub_le (k : ℚ) (num / den) (roundHalfEven num den)
    rw [abs_sub_comm (num / den : ℚ)] at htriangle
    linarith

theorem roundHalfEven_of_dvd {num den : ℕ} (hden : 0 < den) (h : den ∣ num) :
    roundHalfEven num den * den = num := by
  obtain ⟨k, rfl⟩ := h
  unfold roundHalfEven
  rw [Nat.mul_div_cancel_left k hden, Nat.mul_mod_right]
  simp [hden, Nat.mul_comm]

section Signs

/-- A number with a sign in front of it. -/
def signed (negative : Bool) (v : ℚ) : ℚ := if negative then -v else v

theorem abs_signed_sub_signed (negative : Bool) (v w : ℚ) :
    |signed negative v - signed negative w| = |v - w| := by
  cases negative with
  | false => rfl
  | true => rw [signed, signed, if_pos rfl, if_pos rfl, neg_sub_neg, abs_sub_comm]

theorem signed_div_signed (s t : Bool) (v w : ℚ) : signed s v / signed t w = signed (s != t) (v / w) := by
  cases s <;> cases t <;> simp [signed, neg_div, div_neg]

theorem abs_signed (negative : Bool) (v : ℚ) : |signed negative v| = |v| := by
  cases negative with
  | false => rfl
  | true => exact abs_neg v

theorem signed_natAbs (n : ℤ) (v : ℚ) : signed (decide (n < 0)) (n.natAbs / v) = n / v := by
  unfold signed
  rcases lt_or_ge n 0 with hn | hn
  · rw [decide_eq_true hn, if_pos rfl, Nat.cast_natAbs, abs_of_neg hn, Int.cast_neg, neg_div, neg_neg]
  · rw [decide_eq_false (not_lt.2 hn), if_neg Bool.false_ne_true, Nat.cast_natAbs, abs_of_nonneg hn]

theorem signed_natCast_div (negative : Bool) (n : ℕ) (v : ℚ) :
    signed negative (n / v) = ((if negative then -(n : ℤ) else n : ℤ) : ℚ) / v := by
  cases negative with
  | false => exact congrArg (· / v) (Int.cast_natCast n).symm
  | true => rw [signed, if_pos rfl, if_pos rfl, Int.cast_neg, Int.cast_natCast, neg_div]

end Signs

namespace Double

section Rounding

variable {negative : Bool} {num den : ℕ}

/-- The last carry does not change the magnitude. -/
theorem magnitude_rounded (num den : ℕ) :
    (rounded num den).1 * 2 ^ (rounded num den).2 =
      roundHalfEven num (den * 2 ^ ((num / den).log2 - 52)) * 2 ^ ((num / den).log2 - 52) := by
  unfold rounded
  dsimp only
  split
  · next hcarry =>
    rw [hcarry]
    ring
  · rfl

/-- Of all places of doubles, and even of all multiples of the last bit's worth, none is closer. -/
theorem abs_rounded_sub_le (num : ℕ) (hden : 0 < den) {p : ℤ} {n f : ℕ} (hc : Canonical n f)
    (hp : p.natAbs = n * 2 ^ f) :
    |(((rounded num den).1 * 2 ^ (rounded num den).2 : ℕ) : ℚ) - num / den| ≤ |(p : ℚ) - num / den| := by
  rw [magnitude_rounded]
  obtain ⟨e, he⟩ : ∃ e, (num / den).log2 - 52 = e := ⟨_, rfl⟩
  rw [he]
  have hunit : (0 : ℚ) < 2 ^ e := by positivity
  have hgrid (k : ℤ) :
      |((roundHalfEven num (den * 2 ^ e) * 2 ^ e : ℕ) : ℚ) - num / den| ≤ |(k * 2 ^ e : ℚ) - num / den| := by
    have hclosest := abs_roundHalfEven_sub_le_abs num (Nat.mul_pos hden (Nat.two_pow_pos e)) k
    have hscale (x : ℚ) : |x * 2 ^ e - num / den| = |x - num / (den * 2 ^ e : ℕ)| * 2 ^ e := by
      rw [← abs_of_pos hunit, ← abs_mul, abs_of_pos hunit]
      congr 1
      push_cast
      field_simp
    push_cast at hscale ⊢
    rw [hscale, hscale]
    push_cast at hclosest
    exact mul_le_mul_of_nonneg_right hclosest hunit.le
  rcases le_or_gt e f with hef | hfe
  · obtain ⟨k, hk⟩ : (2 ^ e : ℤ) ∣ p := by
      rw [← Int.natAbs_dvd_natAbs, hp, Int.natAbs_pow]
      exact (pow_dvd_pow 2 hef).mul_left n
    have hk' : (p : ℚ) = k * 2 ^ e := by
      rw [hk]
      push_cast
      ring
    exact hk' ▸ hgrid k
  · -- the double has a smaller exponent, and so it lies below a power of two that `num / den` does not
    have hq : num / den ≠ 0 := by
      intro hzero
      simp [hzero] at he
      omega
    have hpower : 2 ^ 52 * 2 ^ e ≤ num / den := by
      rw [← pow_add]
      have hlog : 52 + e = (num / den).log2 := by omega
      exact hlog ▸ Nat.log2_self_le hq
    have hbelow : p.natAbs ≤ 2 ^ 52 * 2 ^ e := by
      rw [hp, ← pow_add]
      exact (mul_two_pow_lt hc.1 (by omega)).le
    have hpower' : (2 ^ 52 * 2 ^ e : ℚ) ≤ num / den := by
      have hcast : ((num / den : ℕ) : ℚ) ≤ num / den := Nat.cast_div_le
      exact le_trans (by exact_mod_cast hpower) hcast
    have hbelow' : (p : ℚ) ≤ 2 ^ 52 * 2 ^ e := by
      have hle : p ≤ (2 ^ 52 * 2 ^ e : ℕ) := Int.le_natAbs.trans (by exact_mod_cast hbelow)
      exact_mod_cast hle
    have hclosest := hgrid (2 ^ 52)
    push_cast at hclosest ⊢
    refine hclosest.trans ?_
    rw [abs_of_nonpos (by linarith), abs_of_nonpos (by linarith)]
    linarith

end Rounding

/-- The number that a finite double stands for. -/
def value (x : Double) : ℚ := x.position / 2 ^ 1074

/-- No finite double is closer. -/
def IsClosestTo (x : Double) (v : ℚ) : Prop :=
  x.isFinite = true ∧ ∀ y : Double, y.isFinite = true → |x.value - v| ≤ |y.value - v|

/-- No finite double is closer, and one that is as close stands for the same number. -/
structure IsUniquelyClosestTo (x : Double) (v : ℚ) : Prop where
  closest : x.IsClosestTo v
  unique : ∀ y : Double, y.IsClosestTo v → y.value = x.value

theorem value_finite {s : Bool} {m e : ℕ} {hc : Canonical m e} :
    (finite s m e hc).value = signed s ((m * 2 ^ e : ℕ) / 2 ^ 1074) := by
  cases s with
  | false => exact congrArg (· / _) (Int.cast_natCast _)
  | true =>
    show ((-(m * 2 ^ e : ℕ) : ℤ) : ℚ) / 2 ^ 1074 = -(((m * 2 ^ e : ℕ) : ℚ) / 2 ^ 1074)
    rw [Int.cast_neg, Int.cast_natCast, neg_div]

/-- Each finite double stands for a number of units that a significand and an exponent make up. -/
theorem exists_signed_value (negative : Bool) {y : Double} (h : y.isFinite = true) :
    ∃ (p : ℤ) (n f : ℕ), Canonical n f ∧ p.natAbs = n * 2 ^ f ∧ y.value = signed negative (p / 2 ^ 1074) := by
  cases y with
  | finite t n f hc =>
    have hposition : (finite t n f hc).position.natAbs = n * 2 ^ f := natAbs_position _
    cases negative with
    | false => exact ⟨_, n, f, hc, hposition, rfl⟩
    | true =>
      refine ⟨-(finite t n f hc).position, n, f, hc, by rwa [Int.natAbs_neg], ?_⟩
      unfold signed value
      rw [if_pos rfl, Int.cast_neg, neg_div, neg_neg]
  | _ => cases h

theorem isClosestTo_ofUnits {negative : Bool} {num den : ℕ} (hden : 0 < den) (h : num ≤ maxMagnitude * den) :
    (ofUnits negative num den).IsClosestTo (signed negative (num / den / 2 ^ 1074)) := by
  refine ⟨isFinite_ofUnits hden h, fun y hy => ?_⟩
  obtain ⟨p, n, f, hc, hp, hvalue⟩ := exists_signed_value negative hy
  have hclosest := abs_rounded_sub_le num hden hc hp
  rw [ofUnits_eq, dif_pos (canonical_rounded hden h), value_finite, hvalue, abs_signed_sub_signed,
    abs_signed_sub_signed, ← sub_div, ← sub_div, abs_div, abs_div]
  exact div_le_div_of_nonneg_right hclosest (abs_nonneg _)

/-- A quotient is the exact quotient of the numbers, rounded. -/
theorem exists_div_eq_ofUnits {x y : Double} (hx : x.isFinite = true) (hy : y.isFinite = true) (hne : y.value ≠ 0) :
    ∃ num den : ℕ, 0 < den ∧ x.div y = ofUnits (x.isNegative != y.isNegative) num den ∧
      x.value / y.value = signed (x.isNegative != y.isNegative) (num / den / 2 ^ 1074) := by
  cases x with
  | finite s m e hcx =>
    cases y with
    | finite t n f hcy =>
      have hn : n ≠ 0 := by
        rintro rfl
        rw [value_finite, Nat.zero_mul, Nat.cast_zero, zero_div] at hne
        cases t <;> simp [signed] at hne
      have hnum : ((m * 2 ^ e * unitsPerOne : ℕ) : ℚ) = (m * 2 ^ e : ℕ) * 2 ^ 1074 := by
        rw [Nat.cast_mul, cast_unitsPerOne]
      refine ⟨m * 2 ^ e * unitsPerOne, n * 2 ^ f, Nat.mul_pos (Nat.pos_of_ne_zero hn) (Nat.two_pow_pos f),
        div_finite hn, ?_⟩
      rw [value_finite, value_finite, signed_div_signed, hnum]
      refine congrArg (signed _) ?_
      field_simp
    | _ => cases hy
  | _ => cases hx

/-- A quotient is the closest double to the quotient of the numbers. -/
theorem isClosestTo_div {x y : Double} (hx : x.isFinite = true) (hy : y.isFinite = true) (hne : y.value ≠ 0)
    (hrange : |x.value / y.value| ≤ maxMagnitude / 2 ^ 1074) : (x.div y).IsClosestTo (x.value / y.value) := by
  obtain ⟨num, den, hden, hdiv, hvalue⟩ := exists_div_eq_ofUnits hx hy hne
  have hunit : (0 : ℚ) < 2 ^ 1074 := pow_pos two_pos 1074
  have hunits : (0 : ℚ) ≤ num / den / 2 ^ 1074 :=
    div_nonneg (div_nonneg (Nat.cast_nonneg _) (Nat.cast_nonneg _)) hunit.le
  rw [hvalue] at hrange ⊢
  rw [hdiv]
  refine isClosestTo_ofUnits hden ?_
  rw [abs_signed, abs_of_nonneg hunits, div_le_div_iff_of_pos_right hunit, div_le_iff₀ (Nat.cast_pos.2 hden),
    ← Nat.cast_mul, Nat.cast_le] at hrange
  exact hrange

section Exact

/-- Halves, quarters and so on whose number a significand has room for are met exactly. -/
theorem value_ofRatio (negative : Bool) {m k : ℕ} (hm : m < 2 ^ 53) (hk : k ≤ 1074) :
    (ofRatio negative m (2 ^ k)).isFinite = true ∧
      (ofRatio negative m (2 ^ k)).value = signed negative (m / 2 ^ k) := by
  obtain ⟨j, hj⟩ : ∃ j, k + j = 1074 := ⟨1074 - k, by omega⟩
  have hden : 0 < 2 ^ k := Nat.two_pow_pos k
  have hsplit : m * unitsPerOne = m * 2 ^ j * 2 ^ k := by
    rw [unitsPerOne_eq hj, pow_add, Nat.mul_comm (2 ^ k), Nat.mul_assoc]
  have hquotient : m * unitsPerOne / 2 ^ k = m * 2 ^ j := by rw [hsplit, Nat.mul_div_cancel _ hden]
  have hrange : m * unitsPerOne ≤ maxMagnitude * 2 ^ k := by
    rw [hsplit]
    refine Nat.mul_le_mul_right _ ((Nat.mul_le_mul_right _ hm.le).trans (two_pow_mul_le_max (by omega)))
  have hexact : (rounded (m * unitsPerOne) (2 ^ k)).1 * 2 ^ (rounded (m * unitsPerOne) (2 ^ k)).2 = m * 2 ^ j := by
    rw [magnitude_rounded, hquotient]
    have hlog : (m * 2 ^ j).log2 - 52 ≤ j := by
      rcases eq_or_ne (m * 2 ^ j) 0 with hzero | hne
      · rw [hzero]
        simp
      · have hlt : (m * 2 ^ j).log2 < 53 + j := by
          rw [Nat.log2_lt hne, pow_add]
          exact Nat.mul_lt_mul_of_pos_right hm (Nat.two_pow_pos j)
        omega
    generalize (m * 2 ^ j).log2 - 52 = e at hlog
    have hdvd : 2 ^ k * 2 ^ e ∣ m * unitsPerOne := by
      rw [← pow_add, unitsPerOne_eq hj]
      exact (pow_dvd_pow 2 (by omega)).mul_left m
    have hround := roundHalfEven_of_dvd (Nat.mul_pos hden (Nat.two_pow_pos e)) hdvd
    refine Nat.eq_of_mul_eq_mul_right hden ?_
    rw [← hsplit, Nat.mul_assoc, Nat.mul_comm (2 ^ e), hround]
  refine ⟨isFinite_ofUnits hden hrange, ?_⟩
  unfold ofRatio
  rw [ofUnits_eq, dif_pos (canonical_rounded hden hrange), value_finite, hexact]
  refine congrArg (signed negative) ?_
  have hunit : (2 : ℚ) ^ 1074 = 2 ^ k * 2 ^ j := by rw [← pow_add, hj]
  rw [hunit, Nat.cast_mul, Nat.cast_pow, Nat.cast_ofNat]
  exact mul_div_mul_right _ _ (pow_ne_zero j two_ne_zero)

theorem value_ofInt {n : ℤ} (h : n.natAbs < 2 ^ 53) : (ofInt n).isFinite = true ∧ (ofInt n).value = n := by
  obtain ⟨hfinite, hvalue⟩ := value_ofRatio (decide (n < 0)) (k := 0) h (Nat.zero_le _)
  refine ⟨hfinite, hvalue.trans ?_⟩
  rw [signed_natAbs, pow_zero, div_one]

end Exact

theorem IsClosestTo.value_eq {x : Double} {v : ℚ} (hx : x.IsClosestTo v) {z : Double} (hz : z.isFinite = true)
    (hv : z.value = v) : x.value = v := by
  have hle := hx.2 z hz
  rw [hv, sub_self, abs_zero] at hle
  exact sub_eq_zero.1 (abs_nonpos_iff.1 hle)

/-- No number of hundredths is halfway between two doubles, as long as a significand has room for it. -/
theorem eq_of_isClosestTo {x y : Double} {c : ℤ} (hc : c.natAbs < 2 ^ 53) (hx : x.IsClosestTo (c / 100))
    (hy : y.IsClosestTo (c / 100)) : x.value = y.value := by
  have hdistance : |x.value - c / 100| = |y.value - c / 100| := le_antisymm (hx.2 y hy.1) (hy.2 x hx.1)
  rcases abs_eq_abs.1 hdistance with hsame | hopposite
  · linarith
  · -- halfway between doubles there are only quarters, and those are doubles themselves
    have hunit : (0 : ℚ) < 2 ^ 1074 := pow_pos two_pos 1074
    have hsum : (x.position + y.position) * 50 = c * 2 ^ 1074 := by
      have hvalues : (x.position : ℚ) / 2 ^ 1074 + y.position / 2 ^ 1074 = c / 50 := by
        show x.value + y.value = c / 50
        linarith
      rw [← add_div, div_eq_div_iff hunit.ne' (by norm_num)] at hvalues
      refine (Int.cast_inj (α := ℚ)).1 ?_
      rw [Int.cast_mul, Int.cast_add, Int.cast_mul, Int.cast_pow, Int.cast_ofNat, Int.cast_ofNat, hvalues]
    have hdvd : (25 : ℤ) ∣ c := by
      have hcoprime : IsCoprime (25 : ℤ) (2 ^ 1074) := IsCoprime.pow_right (by norm_num)
      exact hcoprime.dvd_of_dvd_mul_right ⟨(x.position + y.position) * 2, by rw [← hsum]; ring⟩
    obtain ⟨k, rfl⟩ := hdvd
    have hk : k.natAbs < 2 ^ 53 := by omega
    obtain ⟨hfinite, hvalue⟩ := value_ofRatio (decide (k < 0)) (k := 2) hk (by decide)
    have hquarters : (ofRatio (decide (k < 0)) k.natAbs (2 ^ 2)).value = ((25 * k : ℤ) : ℚ) / 100 := by
      rw [hvalue, signed_natAbs]
      push_cast
      ring
    rw [hx.value_eq hfinite hquarters, hy.value_eq hfinite hquarters]

theorem IsClosestTo.uniquely {x : Double} {negative : Bool} {c : ℕ} (hc : c < 2 ^ 53)
    (hx : x.IsClosestTo (signed negative (c / 100))) : x.IsUniquelyClosestTo (signed negative (c / 100)) := by
  refine ⟨hx, fun y hy => ?_⟩
  rw [signed_natCast_div] at hx hy
  refine eq_of_isClosestTo ?_ hy hx
  cases negative with
  | false => exact hc
  | true => rwa [if_pos rfl, Int.natAbs_neg, Int.natAbs_natCast]

/-- A multiple of `1 / 256` is no further away than half of that. -/
theorem IsClosestTo.abs_value_sub_le {x : Double} {negative : Bool} {c : ℕ} (hc : c ≤ 2 ^ 51)
    (hx : x.IsClosestTo (signed negative (c / 100))) : |x.value - signed negative (c / 100)| ≤ 1 / 512 := by
  have hround := abs_roundHalfEven_sub_le (256 * c) (by decide : 0 < 100)
  have hsmall : roundHalfEven (256 * c) 100 < 2 ^ 53 := by
    have := (le_roundHalfEven_iff (256 * c) (by decide : 0 < 100) (2 ^ 53)).1.mt (by omega)
    omega
  generalize roundHalfEven (256 * c) 100 = m at hround hsmall
  obtain ⟨hfinite, hvalue⟩ := value_ofRatio negative (k := 8) hsmall (by decide)
  refine (hx.2 _ hfinite).trans ?_
  rw [hvalue, abs_signed_sub_signed]
  have hscale : (m / 2 ^ 8 - c / 100 : ℚ) = (m - (256 * c : ℕ) / (100 : ℕ)) / 256 := by
    push_cast
    ring
  rw [hscale, abs_div, div_le_iff₀ (by norm_num)]
  norm_num at hround ⊢
  exact hround

/-- No double is closest to two neighbouring numbers of hundredths. -/
theorem IsClosestTo.not_succ {x : Double} {negative : Bool} {c : ℕ} (hc : c < 2 ^ 51)
    (hx : x.IsClosestTo (signed negative ((c + 1 : ℕ) / 100))) : ¬x.IsClosestTo (signed negative (c / 100)) := by
  intro hboth
  have hupper := hx.abs_value_sub_le hc
  have hlower := hboth.abs_value_sub_le hc.le
  have hapart : |signed negative ((c + 1 : ℕ) / 100) - signed negative (c / 100)| = 1 / 100 := by
    rw [abs_signed_sub_signed, ← sub_div, Nat.cast_succ, add_sub_cancel_left, abs_of_pos (by norm_num)]
  have htriangle := abs_sub_le (signed negative ((c + 1 : ℕ) / 100)) x.value (signed negative (c / 100))
  rw [hapart, abs_sub_comm _ x.value] at htriangle
  linarith

end Double

end CampusQuery
