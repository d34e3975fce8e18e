import CampusQuery.Decimal.Arithmetic
import CampusQuery.Decimal.OfDouble
import Mathlib.Tactic

/-! Decimals stay in range: whatever is read from doubles, added up or divided by a positive count has a
coefficient of at most 96 bits and at most 28 places, and two places at most are left by rounding. -/

namespace CampusQuery

theorem roundHalfEven_le (num den : ℕ) : roundHalfEven num den ≤ num / den + 1 := by
  unfold roundHalfEven
  dsimp only
  split_ifs <;> omega

namespace Decimal

/-- A magnitude and a scale that a decimal has room for. -/
def Fits (p : ℕ × ℕ) : Prop := p.1 < coefficientLimit ∧ p.2 ≤ maxScale

theorem Fits.mono {m s n r : ℕ} (h : Fits (m, s)) (hn : n ≤ m) (hr : r ≤ s) : Fits (n, r) :=
  ⟨hn.trans_lt h.1, hr.trans h.2⟩

theorem natAbs_ofMagnitude (negative : Bool) (magnitude scale : ℕ) :
    (ofMagnitude negative magnitude scale).coefficient.natAbs = magnitude := by
  unfold ofMagnitude
  cases negative <;> simp

theorem Fits.inRange {m s : ℕ} (h : Fits (m, s)) (negative : Bool) : (ofMagnitude negative m s).InRange := by
  obtain ⟨hm, hs⟩ := h
  refine ⟨?_, hs⟩
  unfold ofMagnitude
  cases negative <;> simpa using hm

section Reading

theorem multiplyFives_lt {fives m places : ℕ} (hm : m < coefficientLimit) :
    (multiplyFives fives m places).1 < coefficientLimit := by
  induction fives generalizing m places with
  | zero => exact hm
  | succ f ih =>
    unfold multiplyFives
    split_ifs with heven hroom
    · exact ih (by omega)
    · exact ih hroom
    · exact ih (by omega)

theorem fits_capScale {places m : ℕ} (hm : m < coefficientLimit) : Fits (capScale places m) := by
  induction places generalizing m with
  | zero => exact ⟨hm, Nat.zero_le _⟩
  | succ p ih =>
    unfold capScale
    split_ifs with hp hzero hfive
    · exact ⟨hm, hp⟩
    · exact ⟨by decide, Nat.zero_le _⟩
    · exact ih (by omega)
    · exact ih (by omega)

theorem fits_capDigits {places m : ℕ} (h : Fits (m, places)) : Fits (capDigits places m) := by
  induction places generalizing m with
  | zero => exact h
  | succ p ih =>
    unfold capDigits
    split_ifs with hsmall hfive
    · exact h
    · exact ih (h.mono (by omega) (Nat.le_succ p))
    · exact ih (h.mono (by omega) (Nat.le_succ p))

theorem fits_dropZeros {places m : ℕ} (h : Fits (m, places)) : Fits (dropZeros places m) := by
  induction places generalizing m with
  | zero => exact h
  | succ p ih =>
    unfold dropZeros
    split_ifs
    · exact ih (h.mono (Nat.div_le_self ..) (Nat.le_succ p))
    · exact h

theorem appendZeros_lt {zeros m n : ℕ} (hm : m < coefficientLimit) (h : appendZeros zeros m = some n) :
    n < coefficientLimit := by
  induction zeros generalizing m with
  | zero => exact Option.some.inj h ▸ hm
  | succ z ih =>
    unfold appendZeros at h
    split_ifs at h with hroom
    exact ih hroom h

theorem divideFives_lt {fives m zeros : ℕ} {p : ℕ × ℕ} (hm : m < coefficientLimit)
    (h : divideFives fives m zeros = some p) : p.1 < coefficientLimit := by
  induction fives generalizing m zeros with
  | zero => exact Option.some.inj h ▸ hm
  | succ f ih =>
    unfold divideFives at h
    split_ifs at h with hroom hzeros
    · exact ih hroom h
    · exact ih (by omega) h

theorem fits_ofUnits? {m e : ℕ} {p : ℕ × ℕ} (hm : m < coefficientLimit) (h : ofUnits? m e = some p) :
    Fits p := by
  unfold ofUnits? at h
  split at h
  · obtain rfl := Option.some.inj h
    exact fits_dropZeros (fits_capDigits (fits_capScale (multiplyFives_lt hm)))
  · obtain ⟨⟨m', zeros⟩, hdivide, h⟩ := Option.bind_eq_some_iff.1 h
    obtain ⟨n, happend, hn⟩ := Option.bind_eq_some_iff.1 h
    obtain rfl := Option.some.inj hn
    exact ⟨appendZeros_lt (divideFives_lt hm hdivide) happend, Nat.zero_le _⟩

theorem ofDouble?_inRange {x : Double} {d : Decimal} (h : ofDouble? x = some d) : d.InRange := by
  cases x with
  | finite negative m e hc =>
    have hm : m < coefficientLimit := hc.1.trans (by decide)
    unfold ofDouble? at h
    dsimp only at h
    split at h
    · obtain rfl := Option.some.inj h
      decide
    · obtain ⟨⟨m', s⟩, hunits, rfl⟩ := Option.map_eq_some_iff.1 h
      exact (fits_ofUnits? hm hunits).inRange negative
  | _ => cases h

end Reading

section Sum

theorem fits_fit? {magnitude scale s : ℕ} {p : ℕ × ℕ} (hs : s ≤ maxScale)
    (h : fit? magnitude scale s = some p) : Fits p := by
  induction s with
  | zero =>
    unfold fit? at h
    dsimp only at h
    split_ifs at h with hroom
    exact Option.some.inj h ▸ ⟨hroom, hs⟩
  | succ s ih =>
    unfold fit? at h
    dsimp only at h
    split_ifs at h with hroom
    · exact Option.some.inj h ▸ ⟨hroom, hs⟩
    · exact ih (Nat.le_of_succ_le hs) h

theorem add?_inRange {a b c : Decimal} (ha : a.InRange) (hb : b.InRange) (h : add? a b = some c) :
    c.InRange := by
  unfold add? at h
  split_ifs at h
  · exact Option.some.inj h ▸ hb
  · exact Option.some.inj h ▸ ha
  · obtain ⟨⟨m, s⟩, hfit, rfl⟩ := Option.map_eq_some_iff.1 h
    exact (fits_fit? (max_le ha.2 hb.2) hfit).inRange _

theorem sum?_inRange {ds : List Decimal} {sum : Decimal} (hds : ∀ d ∈ ds, d.InRange)
    (h : sum? ds = some sum) : sum.InRange := by
  suffices hfold : ∀ start : Decimal, start.InRange → ds.foldlM add? start = some sum → sum.InRange from
    hfold zero (by decide) h
  clear h
  induction ds with
  | nil =>
    intro start hstart h
    exact Option.some.inj h ▸ hstart
  | cons d ds ih =>
    intro start hstart h
    obtain ⟨hd, hrest⟩ := List.forall_mem_cons.1 hds
    rw [List.foldlM_cons] at h
    obtain ⟨next, hnext, h⟩ := Option.bind_eq_some_iff.1 h
    exact ih hrest next (add?_inRange hstart hd hnext) h

end Sum

section Quotient

theorem room_le (q most : ℕ) : room q most ≤ most := by
  induction most with
  | zero => exact le_rfl
  | succ x ih =>
    unfold room
    split_ifs
    · exact le_rfl
    · omega

theorem mul_ten_pow_room_lt {q most : ℕ} (h : room q most ≠ 0) : q * 10 ^ room q most < coefficientLimit := by
  induction most with
  | zero => exact absurd rfl h
  | succ x ih =>
    unfold room at h ⊢
    split_ifs at h ⊢ with hroom
    · exact hroom
    · exact ih h

theorem fits_settle {d q r scale : ℕ} (hr : r < d) (hq : q < 2 * coefficientLimit) (hs : scale ≤ maxScale) :
    Fits (settle d q r scale) := by
  unfold settle
  dsimp only
  split_ifs with hroom
  · exact ⟨hroom, hs⟩
  · have hquotient : (q * d + r) / (10 * d) = q / 10 := by
      rw [Nat.mul_comm 10 d, ← Nat.div_div_eq_div_mul, Nat.mul_comm q d,
        Nat.mul_add_div (by omega), Nat.div_eq_of_lt hr, Nat.add_zero]
    have hround := roundHalfEven_le (q * d + r) (10 * d)
    rw [hquotient] at hround
    have hlimit : 2 ≤ coefficientLimit := by decide
    exact ⟨by dsimp only; omega, by dsimp only; omega⟩

theorem fits_divide {d steps q r scale : ℕ} (hq : q < coefficientLimit) (hr : r < d) (hs : scale ≤ maxScale) :
    Fits (divide d steps q r scale) := by
  induction steps generalizing q r scale with
  | zero => exact fits_settle hr (by omega) hs
  | succ steps ih =>
    unfold divide
    dsimp only
    have hle := room_le q (min 9 (maxScale - scale))
    have hroom := @mul_ten_pow_room_lt q (min 9 (maxScale - scale))
    generalize room q (min 9 (maxScale - scale)) = x at hle hroom ⊢
    have hmod : r * 10 ^ x % d < d := Nat.mod_lt _ (by omega)
    have hdigits : r * 10 ^ x / d < 10 ^ x :=
      Nat.div_lt_of_lt_mul (Nat.mul_lt_mul_of_pos_right hr (by positivity))
    have hpow : 10 ^ x ≤ 10 ^ 9 := Nat.pow_le_pow_right (by decide) (by omega)
    have hlimit : 10 ^ 9 ≤ coefficientLimit := by decide
    split_ifs with hzero hnone hsmall
    · exact ⟨hq, hs⟩
    · exact fits_settle hr (by omega) hs
    · exact ih hsmall hmod (by omega)
    · have := hroom hnone
      exact fits_settle hmod (by omega) (by omega)

theorem fits_dropEights {s q : ℕ} (h : Fits (q, s)) : Fits (dropEights s q) := by
  fun_induction dropEights s q with
  | case1 s q hzeros ih => exact ih (h.mono (Nat.div_le_self ..) (Nat.le_add_right s 8))
  | case2 s q hnone => exact h
  | case3 s q hshort => exact h

theorem Fits.dropOnce {p : ℕ × ℕ} (h : Fits p) (k : ℕ) : Fits (dropOnce k p) := by
  unfold Decimal.dropOnce
  split
  split_ifs
  · exact h.mono (Nat.div_le_self ..) (Nat.sub_le ..)
  · exact h

theorem divNat_inRange {a : Decimal} (ha : a.InRange) {d : ℕ} (hd : 0 < d) : (a.divNat d).InRange := by
  obtain ⟨hm, hs⟩ := ha
  have hquotient : a.coefficient.natAbs / d < coefficientLimit := (Nat.div_le_self ..).trans_lt hm
  unfold divNat
  dsimp only
  split_ifs with hexact
  · exact Fits.inRange ⟨hquotient, hs⟩ _
  · have hdivide : Fits (divide d maxScale _ _ a.scale) :=
      fits_divide hquotient (Nat.mod_lt a.coefficient.natAbs hd) hs
    exact ((fits_dropEights hdivide).dropOnce 4 |>.dropOnce 2 |>.dropOnce 1).inRange _

end Quotient

theorem scale_roundToCents_le (a : Decimal) : a.roundToCents.scale ≤ 2 := by
  unfold roundToCents
  split_ifs with hscale
  · exact hscale
  · exact le_rfl

/-- So the power of ten that is divided by at the end has room in a word. -/
theorem ten_pow_scale_roundToCents_lt (a : Decimal) : 10 ^ a.roundToCents.scale < 2 ^ 64 :=
  (Nat.pow_le_pow_right (by decide) (scale_roundToCents_le a)).trans_lt (by decide)

end Decimal

end CampusQuery
