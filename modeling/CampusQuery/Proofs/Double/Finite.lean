import CampusQuery.Double.Arithmetic
import CampusQuery.Proofs.Decimal.Range
import CampusQuery.Proofs.Double.Canonical

/-! When operations on doubles give finite numbers. Main statements: division by a count and rounding to cents
make no finite number infinite, and no other number finite. -/

namespace CampusQuery

theorem roundHalfEven_le_of_le {num den k : ℕ} (hden : 0 < den) (h : num ≤ k * den) :
    roundHalfEven num den ≤ k := by
  have hsplit : den * (num / den) + num % den = num := Nat.div_add_mod num den
  have hle : num / den ≤ k := Nat.div_le_of_le_mul (by rwa [Nat.mul_comm])
  unfold roundHalfEven
  dsimp only
  rcases hle.eq_or_lt with heq | hlt
  · -- the quotient is the bound itself, so that nothing is left over
    have hrest : num % den = 0 := by
      rw [heq, Nat.mul_comm] at hsplit
      omega
    rw [hrest, heq]
    split_ifs <;> omega
  · split_ifs <;> omega

theorem div_le_roundHalfEven (num den : ℕ) : num / den ≤ roundHalfEven num den := by
  unfold roundHalfEven
  dsimp only
  split_ifs <;> omega

namespace Double

/-- The magnitude of the last finite numbers. -/
@[irreducible]
def maxMagnitude : ℕ := (2 ^ 53 - 1) * 2 ^ 2045

theorem mul_two_pow_le_mul {m e n f : ℕ} (hm : m ≤ n) (he : e ≤ f) : m * 2 ^ e ≤ n * 2 ^ f :=
  Nat.mul_le_mul hm (Nat.pow_le_pow_right two_pos he)

theorem magnitude_le_max {m e : ℕ} (h : Canonical m e) : m * 2 ^ e ≤ maxMagnitude := by
  unfold maxMagnitude
  exact mul_two_pow_le_mul (Nat.le_sub_one_of_lt h.1) h.2.1

theorem two_pow_mul_le_max {k l : ℕ} (h : k + l ≤ 2097) : 2 ^ k * 2 ^ l ≤ maxMagnitude := by
  have hsplit : 2 ^ k * 2 ^ l ≤ 2 ^ 52 * 2 ^ (k + l - 52) := by
    rw [← pow_add, ← pow_add]
    exact Nat.pow_le_pow_right two_pos (by omega)
  unfold maxMagnitude
  exact hsplit.trans (mul_two_pow_le_mul (by decide) (by omega))

theorem two_pow_le_unitsPerOne {k : ℕ} (h : k ≤ 1074) : 2 ^ k ≤ unitsPerOne := by
  obtain ⟨l, hl⟩ := Nat.exists_eq_add_of_le h
  rw [unitsPerOne_eq hl.symm]
  exact Nat.pow_le_pow_right two_pos (Nat.le_add_right k l)

theorem two_pow_mul_units_le_max {k : ℕ} (h : k ≤ 1023) : 2 ^ k * unitsPerOne ≤ maxMagnitude := by
  obtain ⟨l, hl⟩ : ∃ l, l = 1074 := ⟨_, rfl⟩
  rw [unitsPerOne_eq hl]
  exact two_pow_mul_le_max (by omega)

theorem max_lt_two_pow {k : ℕ} (h : 2098 ≤ k) : maxMagnitude < 2 ^ k := by
  unfold maxMagnitude
  exact mul_two_pow_lt (by decide) h

section Rounding

variable {negative : Bool} {num den : ℕ}

/-- The significand and the exponent of `num / den` units. -/
def rounded (num den : ℕ) : ℕ × ℕ :=
  let e := (num / den).log2 - 52
  let m := roundHalfEven num (den * 2 ^ e)
  if m = 2 ^ 53 then (2 ^ 52, e + 1) else (m, e)

theorem ofUnits_eq (negative : Bool) (num den : ℕ) :
    ofUnits negative num den =
      if h : Canonical (rounded num den).1 (rounded num den).2 then
        .finite negative (rounded num den).1 (rounded num den).2 h
      else .infinite negative := by
  unfold ofUnits rounded
  dsimp only

/-- Before a last carry the significand has 53 bits, unless there are no more than that many to begin with. -/
theorem significand_bounds (num den : ℕ) :
    num / den / 2 ^ ((num / den).log2 - 52) < 2 ^ 53 ∧
      (num / den ≠ 0 → 2 ^ (num / den).log2 ≤
        num / den / 2 ^ ((num / den).log2 - 52) * 2 ^ ((num / den).log2 - 52)) := by
  generalize num / den = q
  obtain ⟨e, he⟩ : ∃ e, q.log2 - 52 = e := ⟨_, rfl⟩
  rw [he]
  constructor
  · refine Nat.div_lt_of_lt_mul (Nat.lt_log2_self.trans_le ?_)
    rw [← pow_add]
    exact Nat.pow_le_pow_right two_pos (by omega)
  · intro hq
    have hsplit : 2 ^ q.log2 = 2 ^ (q.log2 - e) * 2 ^ e := by
      rw [← pow_add, Nat.sub_add_cancel (by omega)]
    have hlow : 2 ^ (q.log2 - e) ≤ q / 2 ^ e := by
      rw [Nat.le_div_iff_mul_le (by positivity), ← hsplit]
      exact Nat.log2_self_le hq
    exact hsplit ▸ Nat.mul_le_mul_right _ hlow

theorem canonical_rounded (hden : 0 < den) (h : num ≤ maxMagnitude * den) :
    Canonical (rounded num den).1 (rounded num den).2 := by
  obtain ⟨hhigh, hlow⟩ := significand_bounds num den
  have hquotient : num / den ≤ maxMagnitude := Nat.div_le_of_le_mul (by rwa [Nat.mul_comm])
  have hnum := div_le_roundHalfEven num (den * 2 ^ ((num / den).log2 - 52))
  have hround := roundHalfEven_le num (den * 2 ^ ((num / den).log2 - 52))
  rw [← Nat.div_div_eq_div_mul] at hnum hround
  have hlast : (num / den).log2 - 52 = 2045 →
      roundHalfEven num (den * 2 ^ ((num / den).log2 - 52)) ≤ 2 ^ 53 - 1 := by
    intro he
    refine roundHalfEven_le_of_le (by positivity) (h.trans_eq ?_)
    unfold maxMagnitude
    rw [he, Nat.mul_assoc, Nat.mul_comm den]
  unfold rounded
  dsimp only
  generalize roundHalfEven num (den * 2 ^ ((num / den).log2 - 52)) = m at hnum hround hlast ⊢
  generalize num / den = q at *
  have hexponent : q.log2 - 52 ≤ 2045 := by
    rcases eq_or_ne q 0 with rfl | hq
    · simp
    · by_contra hlarge
      have hlog : maxMagnitude < 2 ^ q.log2 := max_lt_two_pow (by omega)
      exact absurd (hlog.trans_le (Nat.log2_self_le hq)) (not_lt.2 hquotient)
  have hfull : q.log2 - 52 ≠ 0 → 2 ^ 52 ≤ q / 2 ^ (q.log2 - 52) := by
    intro he
    have hq : q ≠ 0 := by
      rintro rfl
      simp at he
    refine Nat.le_of_mul_le_mul_right ?_ (Nat.two_pow_pos (q.log2 - 52))
    rw [← pow_add, Nat.add_sub_cancel' (by omega)]
    exact hlow hq
  split
  · next hcarry =>
    show Canonical (2 ^ 52) (q.log2 - 52 + 1)
    exact ⟨by decide, by omega, .inr le_rfl⟩
  · next hnone =>
    show Canonical m (q.log2 - 52)
    exact ⟨by omega, hexponent, by omega⟩

/-- No leading bit is lost. -/
theorem le_magnitude_rounded (h : num / den ≠ 0) :
    2 ^ (num / den).log2 ≤ (rounded num den).1 * 2 ^ (rounded num den).2 := by
  have hlow := (significand_bounds num den).2 h
  have hnum := div_le_roundHalfEven num (den * 2 ^ ((num / den).log2 - 52))
  rw [← Nat.div_div_eq_div_mul] at hnum
  have hmagnitude := hlow.trans (Nat.mul_le_mul_right _ hnum)
  unfold rounded
  dsimp only
  split
  · next hcarry =>
    rw [hcarry] at hmagnitude
    exact hmagnitude.trans_eq (by ring)
  · exact hmagnitude

theorem isFinite_ofUnits (hden : 0 < den) (h : num ≤ maxMagnitude * den) :
    (ofUnits negative num den).isFinite = true := by
  rw [ofUnits_eq, dif_pos (canonical_rounded hden h)]
  rfl

/-- A number of at least as many units as a power of two has room for is no smaller when it is rounded. -/
theorem ofUnits_cases {k : ℕ} (h : 2 ^ k ≤ num / den) :
    ofUnits negative num den = .infinite negative ∨
      ∃ m e hc, ofUnits negative num den = .finite negative m e hc ∧ 2 ^ k ≤ m * 2 ^ e := by
  rw [ofUnits_eq]
  split
  · next hc =>
    have hne : num / den ≠ 0 := ((Nat.two_pow_pos k).trans_le h).ne'
    have hlog : 2 ^ k ≤ 2 ^ (num / den).log2 := Nat.pow_le_pow_right two_pos ((Nat.le_log2 hne).2 h)
    exact .inr ⟨_, _, hc, rfl, hlog.trans (le_magnitude_rounded hne)⟩
  · exact .inl rfl

end Rounding

theorem isFinite_ofInt {n : ℤ} {k : ℕ} (hk : k ≤ 1023) (h : n.natAbs ≤ 2 ^ k) : (ofInt n).isFinite = true := by
  refine isFinite_ofUnits one_pos ?_
  rw [Nat.mul_one]
  exact (Nat.mul_le_mul_right _ h).trans (two_pow_mul_units_le_max hk)

theorem ofNat_eq_ofInt (n : ℕ) : ofNat n = ofInt n := by
  unfold ofNat ofInt
  rw [Int.natAbs_natCast, decide_eq_false (by omega)]

/-- A positive whole number is not rounded to less than one, but it may be rounded to infinity. -/
theorem ofNat_cases {n : ℕ} (h : 0 < n) :
    ofNat n = .infinite false ∨ ∃ m e hc, ofNat n = .finite false m e hc ∧ unitsPerOne ≤ m * 2 ^ e := by
  obtain ⟨k, hk⟩ : ∃ k, k = 1074 := ⟨_, rfl⟩
  rw [unitsPerOne_eq hk]
  refine ofUnits_cases ?_
  rw [Nat.div_one, unitsPerOne_eq hk]
  exact Nat.le_mul_of_pos_left _ h

theorem div_finite {s t : Bool} {m e n f : ℕ} {hx : Canonical m e} {hy : Canonical n f} (hn : n ≠ 0) :
    (finite s m e hx).div (finite t n f hy) = ofUnits (s != t) (m * 2 ^ e * unitsPerOne) (n * 2 ^ f) :=
  if_neg hn

theorem isFinite_div_ofNat (x : Double) {n : ℕ} (h : 0 < n) : (x.div (ofNat n)).isFinite = x.isFinite := by
  rcases ofNat_cases h with hlarge | ⟨m, e, hc, hn, hone⟩
  · rw [hlarge]
    cases x with
    | finite s => cases s <;> rfl
    | _ => rfl
  · rw [hn]
    cases x with
    | finite s k f hx =>
      have hpos : 0 < m * 2 ^ e := unitsPerOne_pos.trans_le hone
      have hm : m ≠ 0 := (Nat.pos_of_mul_pos_right hpos).ne'
      rw [div_finite hm]
      exact isFinite_ofUnits hpos (Nat.mul_le_mul (magnitude_le_max hx) hone)
    | _ => rfl

theorem not_isFinite_mul {x : Double} (h : x.isFinite = false) (y : Double) : (x.mul y).isFinite = false := by
  cases x with
  | nan => rfl
  | infinite s =>
    cases y with
    | finite t m e hc =>
      show (if m = 0 then undefined else infinite (s != t)).isFinite = false
      split <;> rfl
    | _ => rfl
  | finite => cases h

theorem isFinite_roundToCents (x : Double) : x.roundToCents.isFinite = x.isFinite := by
  unfold roundToCents
  dsimp only
  split
  · rfl
  · next hsmall =>
    rw [Bool.or_eq_true, Bool.not_eq_true', decide_eq_true_eq, not_or, Bool.not_eq_false, not_le] at hsmall
    obtain ⟨hfinite, hsmall⟩ := hsmall
    have hx : x.isFinite = true := by
      by_contra hnot
      rw [not_isFinite_mul (Bool.eq_false_iff.2 hnot)] at hfinite
      cases hfinite
    rw [hx, isFinite_div_ofNat _ (by decide)]
    refine isFinite_ofInt (k := 53) (by decide) ?_
    generalize (x.mul (ofNat 100)).magnitude = m at hsmall ⊢
    have hcents : (2 * m + unitsPerOne) / (2 * unitsPerOne) ≤ 2 ^ 53 := Nat.div_le_of_le_mul (by omega)
    split
    · rwa [Int.natAbs_neg, Int.natAbs_natCast]
    · rwa [Int.natAbs_natCast]

end Double

end CampusQuery
