import CampusQuery.Proofs.Decimal.Whole
import CampusQuery.Proofs.Double.Extremum
import CampusQuery.Proofs.Reduction.Average

/-! Averages of whole numbers. Main statement: in a group that is not too large and whose numbers are whole and not
too large, the average is neither less than the minimum nor greater than the maximum. -/

namespace CampusQuery

section Mean

variable {l : List ℚ} {b : ℚ}

theorem le_sum_div_length (hne : l ≠ []) (h : ∀ v ∈ l, b ≤ v) : b ≤ l.sum / l.length := by
  have hlength : (0 : ℚ) < l.length := Nat.cast_pos.2 (List.length_pos_iff.2 hne)
  have hsum := List.card_nsmul_le_sum l b h
  rwa [le_div_iff₀ hlength, mul_comm, ← nsmul_eq_mul]

theorem sum_div_length_le (hne : l ≠ []) (h : ∀ v ∈ l, v ≤ b) : l.sum / l.length ≤ b := by
  have hlength : (0 : ℚ) < l.length := Nat.cast_pos.2 (List.length_pos_iff.2 hne)
  have hsum := List.sum_le_card_nsmul l b h
  rwa [div_le_iff₀ hlength, mul_comm, ← nsmul_eq_mul]

theorem abs_sum_div_length_le (hne : l ≠ []) (h : ∀ v ∈ l, |v| ≤ b) : |l.sum / l.length| ≤ b :=
  abs_le.2 ⟨le_sum_div_length hne fun v hv => (abs_le.1 (h v hv)).1,
    sum_div_length_le hne fun v hv => (abs_le.1 (h v hv)).2⟩

end Mean

namespace Decimal

/-- There is room for the sum of a moderate number of moderate magnitudes. -/
theorem sum_abs_lt_limit {l : List ℚ} (hlength : l.length < 2 ^ 40) (h : ∀ v ∈ l, |v| ≤ 2 ^ 46) :
    (l.map (|·|)).sum < coefficientLimit := by
  have hsum := List.sum_le_card_nsmul (l.map (|·|)) (2 ^ 46) (List.forall_mem_map.2 h)
  have hcount : (l.length : ℚ) ≤ 2 ^ 40 := by exact_mod_cast hlength.le
  rw [nsmul_eq_mul, List.length_map] at hsum
  calc
    (l.map (|·|)).sum ≤ l.length * 2 ^ 46 := hsum
    _ ≤ 2 ^ 40 * 2 ^ 46 := mul_le_mul_of_nonneg_right hcount (by positivity)
    _ < coefficientLimit := by norm_num [cast_coefficientLimit]

/-- Of a moderate quotient the double is made that is closest to it, rounded twice. -/
theorem isClosestTo_roundedTwice {a : Decimal} {d k : ℕ} (ha : a.InRange) (hd : 0 < d) (hk : k * 100 < 2 ^ 53)
    (hv : |a.value / d| ≤ k) : (a.divNat d).roundToCents.toDouble.IsClosestTo (roundedTwice (a.value / d)) := by
  have hfitted : 0 ≤ fitted |a.value / d| := by
    unfold fitted
    positivity
  have hcents : hundredths (fitted |a.value / d|) ≤ k * 100 := by
    refine hundredths_le_mul_hundred ?_
    rw [abs_of_nonneg hfitted]
    exact fitted_le_natCast (abs_nonneg _) hv
  exact (isUniquelyClosestTo_toDouble (scale_roundToCents_le _) (hcents.trans_lt hk)
    (value_roundToCents_divNat ha hd)).closest

end Decimal

/-- A whole number of at most the given magnitude. -/
def Double.IsWhole (bound : ℕ) (x : Double) : Prop :=
  x.isFinite = true ∧ ∃ n : ℤ, x.value = n ∧ n.natAbs ≤ bound

theorem Double.IsWhole.abs_value_le {bound : ℕ} {x : Double} (h : x.IsWhole bound) : |x.value| ≤ bound := by
  obtain ⟨-, n, hn, hbound⟩ := h
  rw [hn, ← Int.cast_abs, Int.abs_eq_natAbs, Int.cast_natCast]
  exact Nat.cast_le.2 hbound

/-- A whole number is read as itself. -/
theorem Double.IsWhole.exists_ofDouble? {bound : ℕ} (hbound : bound < 2 ^ 53) {x : Double} (h : x.IsWhole bound) :
    ∃ d, Decimal.ofDouble? x = some d ∧ d.value = x.value ∧ d.scale ≤ 0 := by
  obtain ⟨hx, n, hn, hsmall⟩ := h
  refine ⟨⟨n, 0⟩, Decimal.ofDouble?_of_value_eq hx hn (hsmall.trans_lt hbound), ?_, le_rfl⟩
  rw [hn, Decimal.value, pow_zero, div_one]

namespace Reduction

/-- The cells of a field in the rows of a group are these numbers. -/
def Holds (index : ℕ) (group : List Row) (xs : List Double) : Prop :=
  List.Forall₂ (fun row x => row[index]? = some (.number x)) group xs

variable {index : ℕ} {group : List Row} {xs : List Double}

theorem Holds.numbersIn_eq (h : Holds index group xs) : numbersIn index group = xs := by
  induction h with
  | nil => rfl
  | cons hcell _ ih => rw [numbersIn_cons hcell, ih]

theorem Holds.readsAs {ds : List Decimal} (h : Holds index group xs)
    (hread : List.Forall₂ (fun x d => Decimal.ofDouble? x = some d) xs ds) : ReadsAs index group ds := by
  induction h generalizing ds with
  | nil =>
    obtain rfl := List.forall₂_nil_left_iff.1 hread
    exact .nil
  | cons hcell _ ih =>
    obtain ⟨d, ds', hfirst, hrest, rfl⟩ := List.forall₂_cons_left_iff.1 hread
    exact .cons ⟨_, hcell, hfirst⟩ (ih hrest)

theorem Holds.exists_readsAs {bound : ℕ} (hbound : bound < 2 ^ 53) (h : Holds index group xs)
    (hwhole : ∀ x ∈ xs, x.IsWhole bound) :
    ∃ ds, ReadsAs index group ds ∧ ds.map Decimal.value = xs.map Double.value ∧ ∀ d ∈ ds, d.scale ≤ 0 := by
  obtain ⟨ds, hds⟩ := exists_forall₂ fun x hx => (hwhole x hx).exists_ofDouble? hbound
  refine ⟨ds, h.readsAs (hds.imp fun _ _ hd => hd.1), ?_, forall_of_forall₂ (hds.imp fun _ _ hd => hd.2.2).flip⟩
  rw [eq_comm, ← List.forall₂_eq_eq_eq, List.forall₂_map_left_iff, List.forall₂_map_right_iff]
  exact hds.imp fun _ _ hd => hd.2.1.symm

/-- The average of whole numbers is there, and is closest to the mean, rounded twice. -/
theorem Holds.exists_avg (h : Holds index group xs) (hne : group ≠ []) (hsize : group.length < 2 ^ 40)
    (hwhole : ∀ x ∈ xs, x.IsWhole (2 ^ 46)) :
    ∃ y, avg.ofGroup index group = some (.number y) ∧
      y.IsClosestTo (Decimal.roundedTwice ((xs.map Double.value).sum / (xs.map Double.value).length)) := by
  obtain ⟨ds, hread, hvalues, hscale⟩ := h.exists_readsAs (by decide) hwhole
  have hlength : xs.length = group.length := (List.Forall₂.length_eq h).symm
  have hxs : xs.map Double.value ≠ [] := List.map_eq_nil_iff.not.2 (ne_nil_of_forall₂ h hne)
  have hbound : ∀ v ∈ xs.map Double.value, |v| ≤ 2 ^ 46 := by
    refine List.forall_mem_map.2 fun x hx => ?_
    exact_mod_cast (hwhole x hx).abs_value_le
  have hroom : (ds.map fun d => |d.value|).sum * 10 ^ 0 < Decimal.coefficientLimit := by
    have hmagnitudes : ds.map (fun d => |d.value|) = (xs.map Double.value).map (|·|) := by
      rw [← hvalues, List.map_map]
      rfl
    rw [hmagnitudes, pow_zero, mul_one]
    exact Decimal.sum_abs_lt_limit (by rwa [List.length_map, hlength]) hbound
  obtain ⟨sum, hsum, hvalue⟩ := Decimal.sum?_exact hscale hroom
  have hmean : sum.value / group.length = (xs.map Double.value).sum / (xs.map Double.value).length := by
    rw [hvalue, hvalues, List.length_map, hlength]
  have hsmall : |sum.value / group.length| ≤ (2 ^ 46 : ℕ) := by
    rw [hmean, Nat.cast_pow, Nat.cast_ofNat]
    exact abs_sum_div_length_le hxs hbound
  rw [← hmean]
  exact ⟨_, hread.avg_ofGroup hne hsum, Decimal.isClosestTo_roundedTwice
    (Decimal.sum?_inRange hread.inRange hsum) (List.length_pos_iff.2 hne) (by norm_num) hsmall⟩

/-- The average lies between the minimum and the maximum. -/
theorem avg_between_min_max {index : ℕ} {group : List Row} (hne : group ≠ []) (hsize : group.length < 2 ^ 40)
    (hwhole : ∀ row ∈ group, ∃ x, row[index]? = some (.number x) ∧ x.IsWhole (2 ^ 46)) :
    ∃ low mean high, min.ofGroup index group = some (.number low) ∧ avg.ofGroup index group = some (.number mean) ∧
      max.ofGroup index group = some (.number high) ∧ low.le mean = true ∧ mean.le high = true := by
  obtain ⟨xs, hxs⟩ := exists_forall₂ hwhole
  have hholds : Holds index group xs := hxs.imp fun _ _ hx => hx.1
  have hwhole : ∀ x ∈ xs, x.IsWhole (2 ^ 46) := forall_of_forall₂ (hxs.imp fun _ _ hx => hx.2).flip
  obtain ⟨mean, havg, hclosest⟩ := hholds.exists_avg hne hsize hwhole
  cases xs with
  | nil => exact absurd (List.forall₂_nil_right_iff.1 hholds) hne
  | cons x xs =>
    obtain ⟨hlow, hbelow⟩ := Double.foldl_min_spec x xs
    obtain ⟨hhigh, habove⟩ := Double.foldl_max_spec x xs
    have hfinite (y : Double) (hy : y ∈ x :: xs) : y.isFinite = true := (hwhole y hy).1
    have hvalues : (x :: xs).map Double.value ≠ [] := List.map_eq_nil_iff.not.2 (List.cons_ne_nil x xs)
    refine ⟨_, mean, _, min_ofGroup hholds.numbersIn_eq, havg, max_ofGroup hholds.numbersIn_eq, ?_, ?_⟩
    · obtain ⟨hlowFinite, n, hn, -⟩ := hwhole _ hlow
      rw [Double.le_iff_value_le hlowFinite hclosest.1]
      refine hclosest.le_value hlowFinite ?_
      rw [hn]
      refine (Decimal.roundedTwice_bounds _ n).1 (le_sum_div_length hvalues (List.forall_mem_map.2 fun y hy => ?_))
      have hle := hbelow y hy (Double.isNaN_eq_false (hfinite y hy))
      rwa [Double.le_iff_value_le hlowFinite (hfinite y hy), hn] at hle
    · obtain ⟨hhighFinite, n, hn, -⟩ := hwhole _ hhigh
      rw [Double.le_iff_value_le hclosest.1 hhighFinite]
      refine hclosest.value_le hhighFinite ?_
      rw [hn]
      refine (Decimal.roundedTwice_bounds _ n).2 (sum_div_length_le hvalues (List.forall_mem_map.2 fun y hy => ?_))
      have hle := habove y hy (Double.isNaN_eq_false (hfinite y hy))
      rwa [Double.le_iff_value_le (hfinite y hy) hhighFinite, hn] at hle

/-- The mean of these numbers is not whole, and one of them is as large as they may be. -/
def wholes : List Row := [[.number (.ofInt (-7))], [.number (.ofInt 2)], [.number (.ofInt (2 ^ 46))]]

theorem isWhole_ofInt {n : ℤ} (hn : n.natAbs ≤ 2 ^ 46) : (Double.ofInt n).IsWhole (2 ^ 46) := by
  obtain ⟨hfinite, hvalue⟩ := Double.value_ofInt (hn.trans_lt (by decide))
  exact ⟨hfinite, n, hvalue, hn⟩

theorem avg_between_min_max_wholes :
    wholes ≠ [] ∧ wholes.length < 2 ^ 40 ∧ (∀ row ∈ wholes, ∃ x, row[0]? = some (.number x) ∧ x.IsWhole (2 ^ 46)) ∧
      ∃ low mean high, min.ofGroup 0 wholes = some (.number low) ∧ avg.ofGroup 0 wholes = some (.number mean) ∧
        max.ofGroup 0 wholes = some (.number high) ∧ low.le mean = true ∧ mean.le high = true := by
  have hwhole : ∀ row ∈ wholes, ∃ x, row[0]? = some (.number x) ∧ x.IsWhole (2 ^ 46) := by
    refine List.forall_mem_cons.2 ⟨⟨_, rfl, isWhole_ofInt (by decide)⟩, ?_⟩
    refine List.forall_mem_cons.2 ⟨⟨_, rfl, isWhole_ofInt (by decide)⟩, ?_⟩
    exact List.forall_mem_singleton.2 ⟨_, rfl, isWhole_ofInt (by decide)⟩
  exact ⟨by decide, by decide, hwhole, avg_between_min_max (by decide) (by decide) hwhole⟩

end Reduction

end CampusQuery
