import CampusQuery.Proofs.Decimal.Sum

/-! Quotients of decimals. Main statement: a quotient by a count is rounded once, on the finest scale that has room
for it, with a half going to the even neighbour. -/

namespace CampusQuery

theorem le_roundHalfEven_iff_of_div (num : ℕ) {den : ℕ} (hden : 0 < den) (k : ℕ) :
    k ≤ roundHalfEven num den ↔
      (k : ℚ) < num / den + 1 / 2 ∨ (k : ℚ) = num / den + 1 / 2 ∧ k % 2 = 0 := by
  have hpos : (0 : ℚ) < den := Nat.cast_pos.2 hden
  have hscale : (2 * num + den : ℕ) = (2 * den : ℚ) * (num / den + 1 / 2) := by
    push_cast
    field_simp
  have hleft : (2 * k * den : ℕ) = (2 * den : ℚ) * k := by
    push_cast
    ring
  have htwo : (0 : ℚ) < 2 * den := by positivity
  rw [le_roundHalfEven_iff num hden, ← Nat.cast_lt (α := ℚ), ← Nat.cast_inj (R := ℚ), hscale, hleft,
    mul_lt_mul_iff_of_pos_left htwo, mul_right_inj' htwo.ne']

/-- Equal ratios are rounded alike. -/
theorem roundHalfEven_congr {num den num' den' : ℕ} (hden : 0 < den) (hden' : 0 < den')
    (h : (num / den : ℚ) = num' / den') : roundHalfEven num den = roundHalfEven num' den' := by
  refine eq_of_forall_le_iff fun k => ?_
  rw [le_roundHalfEven_iff_of_div num hden, le_roundHalfEven_iff_of_div num' hden', h]

/-- The whole number nearest to the magnitude of `v`; a half goes to the even neighbour. -/
def halfEven (v : ℚ) : ℕ := roundHalfEven v.num.natAbs v.den

theorem roundHalfEven_eq_halfEven (num : ℕ) {den : ℕ} (hden : 0 < den) :
    roundHalfEven num den = halfEven (num / den) := by
  refine roundHalfEven_congr hden (Rat.pos _) ?_
  have hnonneg : (0 : ℚ) ≤ num / den := by positivity
  have hnum : (((num / den : ℚ).num.natAbs : ℤ) : ℚ) = (num / den : ℚ).num := by
    rw [Int.natAbs_of_nonneg (Rat.num_nonneg.2 hnonneg)]
  rw [← Int.cast_natCast (num / den : ℚ).num.natAbs, hnum, Rat.num_div_den]

theorem le_halfEven_iff {v : ℚ} (hv : 0 ≤ v) (k : ℕ) :
    k ≤ halfEven v ↔ (k : ℚ) < v + 1 / 2 ∨ (k : ℚ) = v + 1 / 2 ∧ k % 2 = 0 := by
  have hnum : ((v.num.natAbs : ℕ) : ℚ) / v.den = v := by
    rw [← Int.cast_natCast v.num.natAbs, Int.natAbs_of_nonneg (Rat.num_nonneg.2 hv), Rat.num_div_den]
  rw [halfEven, le_roundHalfEven_iff_of_div _ (Rat.pos v), hnum]

theorem halfEven_natCast (n : ℕ) : halfEven n = n := by
  have hround := roundHalfEven_of_dvd one_pos (one_dvd n)
  rw [halfEven, Rat.num_natCast, Rat.den_natCast, Int.natAbs_natCast]
  rwa [Nat.mul_one] at hround

/-- At an even number it does not matter that a half goes to the even neighbour. -/
theorem le_halfEven_iff_of_even {v : ℚ} (hv : 0 ≤ v) {k : ℕ} (hk : k % 2 = 0) :
    k ≤ halfEven v ↔ (k : ℚ) ≤ v + 1 / 2 := by
  rw [le_halfEven_iff hv, le_iff_lt_or_eq, and_iff_left hk]

namespace Decimal

/-- There is room for a coefficient on the scale, also when it is rounded up. -/
def HasRoom (v : ℚ) (p : ℕ) : Prop := v * 10 ^ p + 1 / 2 < coefficientLimit

instance (v : ℚ) : DecidablePred (HasRoom v) := fun _ => inferInstanceAs (Decidable (_ < _))

/-- The finest scale that has room for a number. -/
def places (v : ℚ) : ℕ := Nat.findGreatest (HasRoom v) maxScale

/-- The number that is written for another one on the finest scale that has room for it. -/
def fitted (v : ℚ) : ℚ := halfEven (v * 10 ^ places v) / 10 ^ places v

section Quotient

variable {v : ℚ} {d q r scale : ℕ}

theorem halfEven_lt_iff_hasRoom (hv : 0 ≤ v) (p : ℕ) :
    halfEven (v * 10 ^ p) < coefficientLimit ↔ HasRoom v p := by
  have heven : coefficientLimit % 2 = 0 := by decide
  rw [← not_le, le_halfEven_iff_of_even (by positivity) heven, not_le, HasRoom]

theorem HasRoom.of_le {p k : ℕ} (h : HasRoom v p) (hv : 0 ≤ v) (hk : k ≤ p) : HasRoom v k := by
  have hpow : (10 : ℚ) ^ k ≤ 10 ^ p := pow_le_pow_right₀ (by norm_num) hk
  have hle : v * 10 ^ k ≤ v * 10 ^ p := mul_le_mul_of_nonneg_left hpow hv
  unfold HasRoom at h ⊢
  linarith

theorem places_eq {p : ℕ} (hv : 0 ≤ v) (hp : p ≤ maxScale) (hroom : HasRoom v p)
    (hnext : p < maxScale → ¬HasRoom v (p + 1)) : places v = p := by
  refine Nat.findGreatest_eq_iff.2 ⟨hp, fun _ => hroom, fun k hk hkmax hkroom => ?_⟩
  exact hnext (hk.trans_le hkmax) (hkroom.of_le hv hk)

/-- What can be written without rounding is written so. -/
theorem fitted_eq_self {s n : ℕ} (hs : s ≤ maxScale) (hn : n < coefficientLimit) (h : v * 10 ^ s = n) :
    fitted v = v := by
  have hroom : HasRoom v s := by
    have hlast : (n : ℚ) + 1 ≤ coefficientLimit := by exact_mod_cast hn
    unfold HasRoom
    linarith
  have hle : s ≤ places v := Nat.le_findGreatest hs hroom
  obtain ⟨k, hk⟩ := Nat.exists_eq_add_of_le hle
  have hwhole : v * 10 ^ places v = (n * 10 ^ k : ℕ) := by
    rw [hk, pow_add, ← mul_assoc, h]
    push_cast
    rfl
  unfold fitted
  rw [hwhole, halfEven_natCast, ← hwhole]
  exact mul_div_cancel_right₀ v (by positivity)

theorem settle_eq_fitted (hd : 0 < d) (hscale : scale ≤ maxScale) (hv : v * 10 ^ scale = (q * d + r : ℕ) / d)
    (hzero : HasRoom v 0) (hroom : v * 10 ^ scale < 2 * coefficientLimit)
    (hnext : scale < maxScale → (coefficientLimit : ℚ) ≤ v * 10 ^ (scale + 1)) :
    ((settle d q r scale).1 / 10 ^ (settle d q r scale).2 : ℚ) = fitted v := by
  have hnonneg : 0 ≤ v := by
    have hpos : (0 : ℚ) < 10 ^ scale := by positivity
    refine nonneg_of_mul_nonneg_left ?_ hpos
    rw [hv]
    positivity
  have hround : roundHalfEven (q * d + r) d = halfEven (v * 10 ^ scale) := by
    rw [roundHalfEven_eq_halfEven _ hd, hv]
  have hnoroom : scale < maxScale → ¬HasRoom v (scale + 1) := by
    intro hlt
    have := hnext hlt
    unfold HasRoom
    linarith
  unfold settle
  dsimp only
  rw [hround]
  split_ifs with hfits
  · rw [halfEven_lt_iff_hasRoom hnonneg] at hfits
    rw [fitted, places_eq hnonneg hscale hfits hnoroom]
  · rw [halfEven_lt_iff_hasRoom hnonneg] at hfits
    -- one place less is enough, as the whole number is below twice the limit
    obtain ⟨s, rfl⟩ : ∃ s, scale = s + 1 := by
      rcases Nat.eq_zero_or_pos scale with rfl | hpos
      · exact absurd hzero hfits
      · exact ⟨scale - 1, by omega⟩
    have htenth : v * 10 ^ s = (q * d + r : ℕ) / (10 * d : ℕ) := by
      rw [Nat.cast_mul, Nat.cast_ofNat, mul_comm (10 : ℚ), ← div_div, ← hv, pow_succ, ← mul_assoc]
      exact (mul_div_cancel_right₀ _ (by norm_num)).symm
    have hlast : HasRoom v s := by
      have hlimit : (10 : ℚ) < coefficientLimit := by norm_num [coefficientLimit]
      rw [pow_succ, ← mul_assoc] at hroom
      unfold HasRoom
      linarith
    rw [Nat.add_sub_cancel, roundHalfEven_eq_halfEven _ (by omega : 0 < 10 * d), ← htenth, fitted,
      places_eq hnonneg (by omega) hlast fun _ => hfits]

/-- Where there is room for no further digit, one would not fit. -/
theorem le_mul_ten_of_room_eq_zero {q most : ℕ} (h : room q most = 0) (hmost : 0 < most) :
    coefficientLimit ≤ q * 10 := by
  induction most with
  | zero => exact absurd hmost (lt_irrefl 0)
  | succ x ih =>
    unfold room at h
    split_ifs at h with hroom
    rcases Nat.eq_zero_or_pos x with rfl | hx
    · simpa using hroom
    · exact ih h hx

theorem quotient_bounds (hr : r < d) (hv : v * 10 ^ scale = (q * d + r : ℕ) / d) :
    (q : ℚ) ≤ v * 10 ^ scale ∧ v * 10 ^ scale < q + 1 := by
  have hdpos : (0 : ℚ) < d := Nat.cast_pos.2 (by omega)
  have hlt : q * d + r < (q + 1) * d := by
    rw [Nat.add_one_mul]
    omega
  rw [hv, le_div_iff₀ hdpos, div_lt_iff₀ hdpos]
  exact ⟨by exact_mod_cast Nat.le_add_right (q * d) r, by exact_mod_cast hlt⟩

/-- With further digits, the quotient and the rest are those of the dividend on a finer scale. -/
theorem quotient_step (hv : v * 10 ^ scale = (q * d + r : ℕ) / d) (x : ℕ) :
    v * 10 ^ (scale + x) = ((q * 10 ^ x + r * 10 ^ x / d) * d + r * 10 ^ x % d : ℕ) / d := by
  have hdigits : (q * 10 ^ x + r * 10 ^ x / d) * d + r * 10 ^ x % d = (q * d + r) * 10 ^ x := by
    calc
      (q * 10 ^ x + r * 10 ^ x / d) * d + r * 10 ^ x % d
          = q * 10 ^ x * d + (d * (r * 10 ^ x / d) + r * 10 ^ x % d) := by ring
      _ = q * 10 ^ x * d + r * 10 ^ x := by rw [Nat.div_add_mod]
      _ = (q * d + r) * 10 ^ x := by ring
  rw [hdigits, pow_add, ← mul_assoc, hv, Nat.cast_mul, Nat.cast_pow, Nat.cast_ofNat, div_mul_eq_mul_div]

theorem divide_eq_fitted {steps : ℕ} (hr : r < d) (hq : q < coefficientLimit) (hscale : scale ≤ maxScale)
    (hsteps : maxScale ≤ steps + scale) (hv : v * 10 ^ scale = (q * d + r : ℕ) / d) (hzero : HasRoom v 0) :
    ((divide d steps q r scale).1 / 10 ^ (divide d steps q r scale).2 : ℚ) = fitted v := by
  have hd : 0 < d := by omega
  induction steps generalizing q r scale with
  | zero =>
    have hlast : (q : ℚ) + 1 ≤ coefficientLimit := by exact_mod_cast hq
    have hbounds := quotient_bounds hr hv
    refine settle_eq_fitted hd hscale hv hzero (by linarith) fun hlt => absurd hlt (by omega)
  | succ steps ih =>
    have hbounds := quotient_bounds hr hv
    have hlast : (q : ℚ) + 1 ≤ coefficientLimit := by exact_mod_cast hq
    unfold divide
    dsimp only
    have hle := room_le q (min 9 (maxScale - scale))
    have hroom := @mul_ten_pow_room_lt q (min 9 (maxScale - scale))
    have hnone := @le_mul_ten_of_room_eq_zero q (min 9 (maxScale - scale))
    generalize room q (min 9 (maxScale - scale)) = x at hle hroom hnone ⊢
    have hrest : r * 10 ^ x % d < d := Nat.mod_lt _ hd
    split_ifs with hexact hx hfits
    · have hwhole : v * 10 ^ scale = q := by
        rw [hv, hexact, Nat.add_zero, Nat.cast_mul, mul_div_cancel_right₀ _ (Nat.cast_ne_zero.2 hd.ne')]
      rw [fitted_eq_self hscale hq hwhole, ← hwhole]
      exact mul_div_cancel_right₀ v (by positivity)
    · refine settle_eq_fitted hd hscale hv hzero (by linarith) fun hlt => ?_
      have hnext : (coefficientLimit : ℚ) ≤ q * 10 := by exact_mod_cast hnone hx (by omega)
      rw [pow_succ, ← mul_assoc]
      linarith
    · exact ih hrest hfits (by omega) (by omega) (quotient_step hv x)
    · have hv' := quotient_step hv x
      have hlarge : (coefficientLimit : ℚ) ≤ v * 10 ^ (scale + x) :=
        le_trans (by exact_mod_cast not_lt.1 hfits) (quotient_bounds hrest hv').1
      refine settle_eq_fitted hd (by omega) hv' hzero ?_ fun _ => ?_
      · have hzeros : (q * 10 ^ x : ℚ) < coefficientLimit := by exact_mod_cast hroom hx
        have hpow : (10 : ℚ) ^ x ≤ 10 ^ 9 := pow_le_pow_right₀ (by norm_num) (by omega)
        have hlimit : (10 : ℚ) ^ 9 < coefficientLimit := by norm_num [coefficientLimit]
        have hmul := mul_lt_mul_of_pos_right hbounds.2 (by positivity : (0 : ℚ) < 10 ^ x)
        rw [pow_add, ← mul_assoc]
        linarith
      · rw [pow_succ, ← mul_assoc]
        linarith

theorem drop_zeros {q k : ℕ} (h : q % 10 ^ k = 0) (s : ℕ) :
    ((q / 10 ^ k : ℕ) / 10 ^ s : ℚ) = q / 10 ^ (s + k) := by
  have hk : (0 : ℚ) < 10 ^ k := by positivity
  have hwhole : ((q / 10 ^ k : ℕ) : ℚ) = q / 10 ^ k := by
    rw [Nat.cast_div (Nat.dvd_of_mod_eq_zero h) (by positivity), Nat.cast_pow, Nat.cast_ofNat]
  rw [hwhole, div_div, ← pow_add, Nat.add_comm]

theorem dropEights_value (s q : ℕ) : ((dropEights s q).1 / 10 ^ (dropEights s q).2 : ℚ) = q / 10 ^ s := by
  fun_induction dropEights s q with
  | case1 s q hzeros ih => exact ih.trans (drop_zeros hzeros.2 s)
  | case2 s q hnone => rfl
  | case3 s q hshort => rfl

theorem dropOnce_value (k : ℕ) (p : ℕ × ℕ) :
    ((dropOnce k p).1 / 10 ^ (dropOnce k p).2 : ℚ) = p.1 / 10 ^ p.2 := by
  obtain ⟨q, s⟩ := p
  unfold dropOnce
  dsimp only
  split_ifs with hzeros
  · obtain ⟨hk, hmod⟩ := hzeros
    rw [drop_zeros hmod, Nat.sub_add_cancel hk]
  · rfl

end Quotient

theorem abs_value (a : Decimal) : |a.value| = a.coefficient.natAbs / 10 ^ a.scale := by
  rw [value, abs_div, abs_of_pos (by positivity : (0 : ℚ) < 10 ^ a.scale), Nat.cast_natAbs, Int.cast_abs]

/-- A quotient has the sign of the dividend, and is rounded once. -/
theorem value_divNat {a : Decimal} (ha : a.InRange) {d : ℕ} (hd : 0 < d) :
    (a.divNat d).value = signed (decide (a.coefficient < 0)) (fitted (|a.value| / d)) := by
  obtain ⟨hm, hs⟩ := ha
  have hv : |a.value| / d * 10 ^ a.scale = (a.coefficient.natAbs / d * d + a.coefficient.natAbs % d : ℕ) / d := by
    rw [Nat.div_add_mod', abs_value]
    field_simp
  unfold divNat
  dsimp only
  generalize a.coefficient.natAbs = m at hm hv ⊢
  have hquotient : m / d < coefficientLimit := (Nat.div_le_self ..).trans_lt hm
  rw [value_ofMagnitude]
  congr 1
  split_ifs with hexact
  · have hwhole : |a.value| / d * 10 ^ a.scale = (m / d : ℕ) := by
      rw [hv, hexact, Nat.add_zero, Nat.cast_mul, mul_div_cancel_right₀ _ (Nat.cast_ne_zero.2 hd.ne')]
    rw [fitted_eq_self hs hquotient hwhole, ← hwhole]
    exact mul_div_cancel_right₀ _ (by positivity)
  · rw [dropOnce_value, dropOnce_value, dropOnce_value, dropEights_value]
    refine divide_eq_fitted (Nat.mod_lt m hd) hquotient hs (by omega) hv ?_
    -- what is left over is no more than half of the dividend
    have hhalf : m / d ≤ m / 2 := by
      refine Nat.div_le_div_left ?_ two_pos
      by_contra hone
      obtain rfl : d = 1 := by omega
      exact hexact (Nat.mod_one m)
    have hsmall : (2 * (m / d : ℕ) : ℚ) ≤ coefficientLimit := by
      exact_mod_cast (by omega : 2 * (m / d) ≤ coefficientLimit)
    have hlimit : (10 : ℚ) < coefficientLimit := by norm_num [coefficientLimit]
    have hscale : |a.value| / d ≤ |a.value| / d * 10 ^ a.scale :=
      le_mul_of_one_le_right (by positivity) (one_le_pow₀ (by norm_num))
    have hbound := (quotient_bounds (Nat.mod_lt m hd) hv).2
    unfold HasRoom
    rw [pow_zero, mul_one]
    linarith

end Decimal

end CampusQuery
