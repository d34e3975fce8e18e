import CampusQuery.Proofs.Decimal.Cents

/-! What a sum of decimals leaves of their order. Main statements: the sum has the largest of the scales unless it
comes back to zero on the way, and the scale does not show in the double that is made of a sum as long as a
significand has room for its coefficient. -/

namespace CampusQuery

namespace Double

theorem isNegative_ofUnits (negative : Bool) (num den : ℕ) : (ofUnits negative num den).isNegative = negative := by
  rw [ofUnits_eq]
  split <;> rfl

theorem isNegative_ofInt (n : ℤ) : (ofInt n).isNegative = decide (n < 0) := isNegative_ofUnits _ _ _

/-- Equal ratios are rounded to one double. -/
theorem ofUnits_congr (negative : Bool) {num den num' den' : ℕ} (hden : 0 < den) (hden' : 0 < den')
    (h : (num / den : ℚ) = num' / den') : ofUnits negative num den = ofUnits negative num' den' := by
  have hquotient : num / den = num' / den' := by
    rw [← Nat.floor_div_eq_div (K := ℚ), h, Nat.floor_div_eq_div]
  have hround (e : ℕ) : roundHalfEven num (den * 2 ^ e) = roundHalfEven num' (den' * 2 ^ e) := by
    refine roundHalfEven_congr (by positivity) (by positivity) ?_
    push_cast
    rw [← div_div, ← div_div, h]
  unfold ofUnits
  simp only [hquotient, hround]

end Double

namespace Decimal

section Reading

theorem dropZeros_scale {places m : ℕ} (h : (dropZeros places m).1 = 0) : (dropZeros places m).2 = 0 := by
  induction places generalizing m with
  | zero => rfl
  | succ p ih =>
    unfold dropZeros at h ⊢
    split_ifs at h ⊢ with hzero
    · exact ih h
    · exact absurd (Nat.zero_mod 10 ▸ congrArg (· % 10) h) hzero

/-- No place is kept for a zero. -/
theorem ofDouble?_scale {x : Double} {d : Decimal} (h : ofDouble? x = some d) (hd : d.coefficient = 0) :
    d.scale = 0 := by
  cases x with
  | finite negative m e hc =>
    unfold ofDouble? at h
    dsimp only at h
    split_ifs at h with hm
    · obtain rfl := Option.some.inj h
      rfl
    · obtain ⟨⟨q, s⟩, hunits, rfl⟩ := Option.map_eq_some_iff.1 h
      have hq : q = 0 := by
        have habs := congrArg Int.natAbs hd
        rwa [natAbs_ofMagnitude] at habs
      subst hq
      unfold ofUnits? at hunits
      split_ifs at hunits with he
      · have hdrop := Option.some.inj hunits
        exact (congrArg Prod.snd hdrop).symm.trans (dropZeros_scale (congrArg Prod.fst hdrop))
      · obtain ⟨p, -, hunits⟩ := Option.bind_eq_some_iff.1 hunits
        obtain ⟨n, -, hn⟩ := Option.bind_eq_some_iff.1 hunits
        exact (congrArg Prod.snd (Option.some.inj hn)).symm
  | _ => cases h

end Reading

section Value

variable {a b : Decimal}

theorem eq_of_value_eq (h : a.value = b.value) (hs : a.scale = b.scale) : a = b := by
  obtain ⟨m, s⟩ := a
  obtain ⟨n, t⟩ := b
  obtain rfl : s = t := hs
  have hpow : (10 : ℚ) ^ s ≠ 0 := by positivity
  rw [value, value, div_left_inj' hpow, Int.cast_inj] at h
  obtain rfl : m = n := h
  rfl

theorem exists_toDouble_eq_ofUnits (ha : a.coefficient.natAbs < 2 ^ 53) (hs : a.scale ≤ 15) :
    ∃ num den : ℕ, 0 < den ∧ a.toDouble = Double.ofUnits (decide (a.value < 0)) num den ∧
      (num / den : ℚ) = |a.value| * 2 ^ 1074 := by
  obtain ⟨hdiv, hx, hy, hne, hvalue⟩ := dividesExactly ha hs
  obtain ⟨num, den, hden, hunits, hratio⟩ := Double.exists_div_eq_ofUnits hx hy hne
  have hunit : (0 : ℚ) < 2 ^ 1074 := pow_pos two_pos 1074
  have hpositive : ¬((10 ^ a.scale : ℕ) : ℤ) < 0 := not_lt.2 (Int.natCast_nonneg _)
  refine ⟨num, den, hden, ?_, ?_⟩
  · rw [hdiv, hunits, Double.isNegative_ofInt, Double.isNegative_ofInt, decide_eq_false hpositive, Bool.bne_false,
      decide_eq_decide.2 (value_lt_zero_iff a)]
  · have hnonneg : (0 : ℚ) ≤ num / den / 2 ^ 1074 :=
      div_nonneg (div_nonneg (Nat.cast_nonneg _) (Nat.cast_nonneg _)) hunit.le
    rw [hvalue, hratio, abs_signed, abs_of_nonneg hnonneg, div_mul_cancel₀ _ hunit.ne']

/-- One number has one double, on whatever scale it is written. -/
theorem toDouble_eq_of_value_eq (ha : a.coefficient.natAbs < 2 ^ 53) (hs : a.scale ≤ 15)
    (hb : b.coefficient.natAbs < 2 ^ 53) (ht : b.scale ≤ 15) (h : a.value = b.value) : a.toDouble = b.toDouble := by
  obtain ⟨num, den, hden, hunits, hratio⟩ := exists_toDouble_eq_ofUnits ha hs
  obtain ⟨num', den', hden', hunits', hratio'⟩ := exists_toDouble_eq_ofUnits hb ht
  rw [hunits, hunits', h]
  exact Double.ofUnits_congr _ hden hden' (by rw [hratio, hratio', h])

end Value

section Sum

/-- The largest of the scales. -/
def largestScale (ds : List Decimal) : ℕ := (ds.map scale).foldr max 0

theorem scale_le_largestScale {ds : List Decimal} {d : Decimal} (hd : d ∈ ds) : d.scale ≤ largestScale ds :=
  List.le_max_of_le (List.mem_map_of_mem hd) le_rfl

theorem largestScale_le {ds : List Decimal} {s : ℕ} (h : ∀ d ∈ ds, d.scale ≤ s) : largestScale ds ≤ s :=
  List.max_le_of_forall_le _ _ (List.forall_mem_map.2 h)

theorem largestScale_eq_of_perm {ds es : List Decimal} (h : ds.Perm es) : largestScale ds = largestScale es :=
  le_antisymm (largestScale_le fun _ hd => scale_le_largestScale (h.mem_iff.1 hd))
    (largestScale_le fun _ hd => scale_le_largestScale (h.mem_iff.2 hd))

theorem largestScale_concat (ds : List Decimal) (d : Decimal) :
    largestScale (ds ++ [d]) = max (largestScale ds) d.scale := by
  refine le_antisymm (largestScale_le fun e he => ?_) (max_le (largestScale_le fun e he => ?_) ?_)
  · rcases List.mem_append.1 he with he | he
    · exact le_max_of_le_left (scale_le_largestScale he)
    · exact le_max_of_le_right (List.mem_singleton.1 he ▸ le_rfl)
  · exact scale_le_largestScale (List.mem_append_left _ he)
  · exact scale_le_largestScale (List.mem_append_right _ (List.mem_singleton_self d))

/-- Numbers that are not all zero cancel, and more are added after them. -/
def ReturnsToZero (ds : List Decimal) : Prop :=
  ∃ k < ds.length, ((ds.take k).map value).sum = 0 ∧ ∃ d ∈ ds.take k, d.value ≠ 0

theorem ReturnsToZero.concat {ds : List Decimal} (h : ReturnsToZero ds) (d : Decimal) : ReturnsToZero (ds ++ [d]) := by
  obtain ⟨k, hk, hzero⟩ := h
  refine ⟨k, ?_, ?_⟩
  · rw [List.length_append]
    omega
  · rwa [List.take_append_of_le_length hk.le]

/-- Where nothing cancels before the last number, a sum of zero before it is one of zeros. -/
theorem coefficient_eq_zero_of_not_returnsToZero {ds : List Decimal} {d : Decimal}
    (h : ¬ReturnsToZero (ds ++ [d])) (hsum : (ds.map value).sum = 0) : ∀ e ∈ ds, e.coefficient = 0 := by
  intro e he
  rw [coefficient_eq_zero_iff]
  by_contra hne
  have htake : (ds ++ [d]).take ds.length = ds := List.take_left
  exact h ⟨ds.length, by simp, by rw [htake]; exact hsum, by rw [htake]; exact ⟨e, he, hne⟩⟩

/-- There is room for the sum of the magnitudes on a scale that none of the numbers exceeds. -/
structure HaveRoom (s : ℕ) (ds : List Decimal) : Prop where
  scale_le : ∀ d ∈ ds, d.scale ≤ s
  sum_lt : (ds.map fun d => |d.value|).sum * 10 ^ s < coefficientLimit

section HaveRoom

variable {s : ℕ} {ds : List Decimal}

theorem HaveRoom.left {es : List Decimal} (h : HaveRoom s (ds ++ es)) : HaveRoom s ds := by
  refine ⟨(List.forall_mem_append.1 h.scale_le).1, lt_of_le_of_lt ?_ h.sum_lt⟩
  have hnonneg : 0 ≤ (es.map fun d => |d.value|).sum :=
    List.sum_nonneg (List.forall_mem_map.2 fun d _ => abs_nonneg d.value)
  rw [List.map_append, List.sum_append]
  exact mul_le_mul_of_nonneg_right (le_add_of_nonneg_right hnonneg) (by positivity)

theorem HaveRoom.take (h : HaveRoom s ds) (k : ℕ) : HaveRoom s (ds.take k) := by
  rw [← List.take_append_drop k ds] at h
  exact h.left

theorem HaveRoom.perm {es : List Decimal} (h : HaveRoom s ds) (hperm : es.Perm ds) : HaveRoom s es := by
  refine ⟨fun d hd => h.scale_le d (hperm.mem_iff.1 hd), ?_⟩
  rw [(hperm.map fun d => |d.value|).sum_eq]
  exact h.sum_lt

/-- The last number is added to the exact sum of the others. -/
theorem HaveRoom.exists_sum?_concat {d : Decimal} (h : HaveRoom s (ds ++ [d])) :
    ∃ t total, sum? ds = some t ∧ t.value = (ds.map value).sum ∧ sum? (ds ++ [d]) = some total ∧
      total.scale = sumScale t d := by
  obtain ⟨t, ht, hvalue, htScale⟩ := exists_sum? h.left.scale_le h.left.sum_lt
  have hd : d.scale ≤ s := h.scale_le d (List.mem_append_right _ (List.mem_singleton_self d))
  have habs : |t.value| ≤ (ds.map fun d => |d.value|).sum := by
    have hle := List.le_sum_of_subadditive (fun v : ℚ => |v|) abs_zero.le abs_add_le (ds.map value)
    rwa [List.map_map, ← hvalue] at hle
  have hroom : (|t.value| + |d.value|) * 10 ^ s < coefficientLimit := by
    refine lt_of_le_of_lt (mul_le_mul_of_nonneg_right (add_le_add_left habs _) (by positivity)) ?_
    simpa using h.sum_lt
  obtain ⟨total, htotal, -, hscale⟩ := add?_exact htScale hd hroom
  refine ⟨t, total, ht, hvalue, ?_, hscale⟩
  rw [sum?, List.foldlM_append, ← sum?, ht]
  simpa using htotal

/-- Unless it comes back to zero on the way, a sum has the largest of the scales. -/
theorem HaveRoom.scale_sum? {total : Decimal} (h : HaveRoom s ds) (hplain : ∀ d ∈ ds, d.coefficient = 0 → d.scale = 0)
    (hreturn : ¬ReturnsToZero ds) (hsum : sum? ds = some total) : total.scale = largestScale ds := by
  induction ds using List.reverseRecOn generalizing total with
  | nil =>
    obtain rfl := Option.some.inj hsum
    rfl
  | append_singleton ds d ih =>
    obtain ⟨t, total', ht, hvalue, htotal, hscale⟩ := h.exists_sum?_concat
    obtain rfl : total' = total := Option.some.inj (htotal.symm.trans hsum)
    obtain ⟨hplains, hd⟩ := List.forall_mem_append.1 hplain
    have htScale := ih h.left hplains (fun hreturns => hreturn (hreturns.concat d)) ht
    rw [hscale, largestScale_concat]
    unfold sumScale
    split_ifs with hzero hlast
    · -- a sum so far of zero has nothing but zeros in it, and those have no places
      have hzeros := coefficient_eq_zero_of_not_returnsToZero hreturn (hvalue ▸ value_eq_zero hzero)
      have hnone : largestScale ds ≤ 0 := largestScale_le fun e he => (hplains e he (hzeros e he)).le
      omega
    · have hdScale := hd d (List.mem_singleton_self d) hlast
      omega
    · rw [htScale]

end HaveRoom

end Sum

section Rounded

variable {a b : Decimal} {ds es : List Decimal}

theorem scale_roundToCents (a : Decimal) : a.roundToCents.scale = min 2 a.scale := by
  unfold roundToCents
  split_ifs with hs
  · exact (min_eq_right hs).symm
  · exact (min_eq_left (not_le.1 hs).le).symm

/-- The sum rounded to cents. Where it comes back to zero on the way, places that the numbers have may be lost. -/
structure IsCentsOf (a : Decimal) (ds : List Decimal) : Prop where
  value_eq : a.value = toCents (ds.map value).sum
  unrounded : largestScale ds ≤ 2 → a.value = (ds.map value).sum
  scale_le : a.scale ≤ min 2 (largestScale ds)
  scale_eq : ¬ReturnsToZero ds → a.scale = min 2 (largestScale ds)

theorem HaveRoom.isCentsOf {total : Decimal} (h : HaveRoom (largestScale ds) ds)
    (hplain : ∀ d ∈ ds, d.coefficient = 0 → d.scale = 0) (hsum : sum? ds = some total) :
    total.roundToCents.IsCentsOf ds := by
  obtain ⟨total', htotal, hvalue, hscale⟩ := exists_sum? h.scale_le h.sum_lt
  obtain rfl : total' = total := Option.some.inj (htotal.symm.trans hsum)
  refine ⟨?_, fun hsmall => ?_, ?_, fun hreturn => ?_⟩
  · rw [value_roundToCents, hvalue]
  · rw [roundToCents, if_pos (hscale.trans hsmall), hvalue]
  · rw [scale_roundToCents]
    exact min_le_min_left 2 hscale
  · rw [scale_roundToCents, h.scale_sum? hplain hreturn hsum]

theorem IsCentsOf.natAbs_coefficient_le (h : a.IsCentsOf ds) :
    a.coefficient.natAbs ≤ hundredths (ds.map value).sum :=
  Decimal.natAbs_coefficient_le (le_min_iff.1 h.scale_le).1 h.value_eq

/-- One double is made of the sum in any order, unless the places that are lost make a difference to how the
coefficient is rounded. -/
theorem IsCentsOf.toDouble_eq (ha : a.IsCentsOf ds) (hb : b.IsCentsOf es) (hperm : es.Perm ds)
    (h : hundredths (ds.map value).sum < 2 ^ 53 ∨ ¬ReturnsToZero ds ∧ ¬ReturnsToZero es) :
    b.toDouble = a.toDouble := by
  have hsum : (es.map value).sum = (ds.map value).sum := (hperm.map value).sum_eq
  have hvalue : b.value = a.value := by rw [hb.value_eq, ha.value_eq, hsum]
  rcases h with hsmall | ⟨hds, hes⟩
  · have hasmall := ha.natAbs_coefficient_le.trans_lt hsmall
    have hbsmall := hb.natAbs_coefficient_le.trans_lt (hsum ▸ hsmall)
    have hascale : a.scale ≤ 2 := (le_min_iff.1 ha.scale_le).1
    have hbscale : b.scale ≤ 2 := (le_min_iff.1 hb.scale_le).1
    exact toDouble_eq_of_value_eq hbsmall (by omega) hasmall (by omega) hvalue
  · refine congrArg toDouble (eq_of_value_eq hvalue ?_)
    rw [hb.scale_eq hes, ha.scale_eq hds, largestScale_eq_of_perm hperm]

end Rounded

end Decimal

end CampusQuery
