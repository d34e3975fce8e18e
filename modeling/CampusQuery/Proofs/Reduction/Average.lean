import CampusQuery.Proofs.Decimal.Cents
import CampusQuery.Proofs.Reduction.Finite

/-! Averages. Main statement: where the numbers of a group have an exact sum, their average is the double closest to
the mean rounded once to cents, but for means that fall short of half a cent: those are rounded twice, and go up. -/

namespace CampusQuery

namespace Decimal

/-- The mean of some numbers. -/
def mean (ds : List Decimal) : ℚ := (ds.map value).sum / ds.length

theorem fifteen_le_places {v : ℚ} (hv : v ≤ 10 ^ 13) : 15 ≤ places v := by
  refine Nat.le_findGreatest (by decide) ?_
  unfold HasRoom coefficientLimit
  push_cast
  linarith

theorem hundredths_le {v : ℚ} (hv : |v| ≤ 10 ^ 13) : hundredths v ≤ 10 ^ 15 :=
  hundredths_le_mul_hundred (k := 10 ^ 13) (by exact_mod_cast hv)

variable {a : Decimal} {d : ℕ}

theorem decide_mean_lt_zero (a : Decimal) (hd : 0 < d) : decide (a.value / d < 0) = decide (a.coefficient < 0) := by
  have hcount : (0 : ℚ) < d := Nat.cast_pos.2 hd
  refine decide_eq_decide.2 ?_
  rw [div_lt_iff₀ hcount, zero_mul, value_lt_zero_iff]

/-- First to all the places that there is room for, then to cents. -/
theorem value_roundToCents_divNat (ha : a.InRange) (hd : 0 < d) :
    (a.divNat d).roundToCents.value =
      signed (decide (a.value / d < 0)) (hundredths (fitted |a.value / d|) / 100) := by
  have hmean : |a.value| / d = |a.value / d| := by rw [abs_div, Nat.abs_cast]
  have hfitted : 0 ≤ fitted |a.value / d| := by
    unfold fitted
    positivity
  rw [value_roundToCents, value_divNat ha hd, hmean, toCents_signed _ hfitted, decide_mean_lt_zero a hd]

theorem isUniquelyClosestTo_mean (ha : a.InRange) (hd : 0 < d) (hsmall : |a.value / d| ≤ 10 ^ 13) :
    (¬FallsShort (a.value / d) → (a.divNat d).roundToCents.toDouble.IsUniquelyClosestTo (toCents (a.value / d))) ∧
      (FallsShort (a.value / d) →
        (a.divNat d).roundToCents.toDouble.IsUniquelyClosestTo (nextCents (a.value / d))) := by
  have hround := value_roundToCents_divNat ha hd
  have hscale := scale_roundToCents_le (a.divNat d)
  generalize (a.divNat d).roundToCents = b at hround hscale ⊢
  generalize a.value / d = v at hsmall hround ⊢
  have hplaces : 4 ≤ places |v| := le_trans (by decide) (fifteen_le_places hsmall)
  have hsame : hundredths |v| = hundredths v := by rw [hundredths, abs_abs, hundredths]
  have hlarge := hundredths_le hsmall
  obtain ⟨honce, htwice⟩ := hundredths_fitted (abs_nonneg v) hplaces
  rw [FallsShort, abs_abs, hsame, ← FallsShort] at honce htwice
  constructor
  · intro hshort
    rw [honce hshort] at hround
    exact isUniquelyClosestTo_toDouble hscale (by omega) hround
  · intro hshort
    rw [htwice hshort] at hround
    exact isUniquelyClosestTo_toDouble hscale (by omega) hround

end Decimal

namespace Reduction

/-- The cells of a field in the rows of a group are numbers, and these are the decimals that they are read as. -/
def ReadsAs (index : ℕ) (group : List Row) (ds : List Decimal) : Prop :=
  List.Forall₂ (fun row d => ∃ x, row[index]? = some (.number x) ∧ Decimal.ofDouble? x = some d) group ds

variable {index : ℕ} {group : List Row} {ds : List Decimal}

theorem ReadsAs.convertsTo (h : ReadsAs index group ds) : Total.ConvertsTo (numbersIn index group) ds := by
  induction h with
  | nil => exact .nil
  | cons hrow _ ih =>
    obtain ⟨x, hcell, hread⟩ := hrow
    rw [numbersIn_cons hcell]
    exact .cons hread ih

theorem ReadsAs.inRange (h : ReadsAs index group ds) : ∀ d ∈ ds, d.InRange := by
  induction h with
  | nil => exact fun d hd => absurd hd List.not_mem_nil
  | cons hrow _ ih =>
    obtain ⟨x, -, hread⟩ := hrow
    exact List.forall_mem_cons.2 ⟨Decimal.ofDouble?_inRange hread, ih⟩

/-- The mean is taken in decimals where the numbers have a decimal sum. -/
theorem ReadsAs.avg_ofGroup {sum : Decimal} (h : ReadsAs index group ds) (hne : group ≠ [])
    (hsum : Decimal.sum? ds = some sum) :
    avg.ofGroup index group = some (.number (sum.divNat group.length).roundToCents.toDouble) := by
  have hnumbers : numbersIn index group ≠ [] := ne_nil_of_forall₂ h.convertsTo.flip (ne_nil_of_forall₂ h hne)
  rw [Reduction.avg_ofGroup hnumbers, h.convertsTo.of_eq hsum]
  rfl

theorem ReadsAs.length_eq (h : ReadsAs index group ds) : ds.length = group.length := (List.Forall₂.length_eq h).symm

/-- There is an average. It is the mean, rounded once to cents, as a double, unless the mean falls short of half a
cent. -/
theorem avg_closest {s : ℕ} (hne : group ≠ []) (hread : ReadsAs index group ds) (hscale : ∀ d ∈ ds, d.scale ≤ s)
    (hexact : (ds.map fun d => |d.value|).sum * 10 ^ s < 2 ^ 96)
    (hsmall : |(ds.map Decimal.value).sum| ≤ group.length * 10 ^ 13) :
    ∃ x, avg.ofGroup index group = some (.number x) ∧
      (¬Decimal.FallsShort (Decimal.mean ds) → x.IsUniquelyClosestTo (toCents (Decimal.mean ds))) ∧
      (Decimal.FallsShort (Decimal.mean ds) →
        x.IsUniquelyClosestTo (nextCents (Decimal.mean ds)) ∧ ¬x.IsClosestTo (toCents (Decimal.mean ds))) := by
  obtain ⟨sum, hsum, hvalue⟩ := Decimal.sum?_exact hscale (Decimal.cast_coefficientLimit ▸ hexact)
  have hcount : 0 < group.length := List.length_pos_iff.2 hne
  have hmean : Decimal.mean ds = sum.value / group.length := by
    rw [Decimal.mean, ← hvalue, hread.length_eq]
  have hbound : |sum.value / group.length| ≤ 10 ^ 13 := by
    rw [abs_div, Nat.abs_cast, div_le_iff₀ (Nat.cast_pos.2 hcount), hvalue, mul_comm]
    exact hsmall
  obtain ⟨honce, htwice⟩ :=
    Decimal.isUniquelyClosestTo_mean (Decimal.sum?_inRange hread.inRange hsum) hcount hbound
  refine ⟨_, hread.avg_ofGroup hne hsum, ?_⟩
  rw [hmean]
  refine ⟨honce, fun hshort => ⟨htwice hshort, ?_⟩⟩
  have hlarge := Decimal.hundredths_le hbound
  exact (htwice hshort).closest.not_succ (by omega)

/-- One cent, and one unit of the last place less than nothing: the mean is just below half a cent. -/
def nearHalf : List Row :=
  [[.text "", .text "", .number (Double.ofRatio false 1 100)],
    [.text "", .text "", .number (Double.ofRatio true 1 (10 ^ 28))]]

def nearHalfRead : List Decimal := [⟨1, 2⟩, ⟨-1, 28⟩]

theorem readsAs_nearHalf : ReadsAs 2 nearHalf nearHalfRead :=
  .cons ⟨_, rfl, by decide +kernel⟩ (.cons ⟨_, rfl, by decide +kernel⟩ .nil)

theorem nearHalf_exact : (nearHalfRead.map fun d => |d.value|).sum * 10 ^ 28 < 2 ^ 96 := by
  norm_num [nearHalfRead, Decimal.value, abs_div]

theorem nearHalf_small : |(nearHalfRead.map Decimal.value).sum| ≤ nearHalf.length * 10 ^ 13 := by
  norm_num [nearHalfRead, Decimal.value, nearHalf, abs_le]

theorem mean_nearHalf : Decimal.mean nearHalfRead = 1 / 200 - 1 / (2 * 10 ^ 28) := by
  norm_num [nearHalfRead, Decimal.mean, Decimal.value]

theorem fallsShort_nearHalf : Decimal.FallsShort (Decimal.mean nearHalfRead) := by
  have hpositive : (0 : ℚ) ≤ 1 / 200 - 1 / (2 * 10 ^ 28) := by norm_num
  have hplaces : Decimal.places (1 / 200 - 1 / (2 * 10 ^ 28)) = 28 := by
    refine Decimal.places_eq hpositive le_rfl ?_ fun hlt => absurd hlt (lt_irrefl 28)
    norm_num [Decimal.HasRoom, Decimal.coefficientLimit]
  refine ⟨0, ?_⟩
  rw [mean_nearHalf, abs_of_nonneg hpositive, hplaces]
  norm_num

theorem avg_closest_nearHalf : ∃ x, avg.ofGroup 2 nearHalf = some (.number x) ∧
    x.IsUniquelyClosestTo (nextCents (Decimal.mean nearHalfRead)) ∧
      ¬x.IsClosestTo (toCents (Decimal.mean nearHalfRead)) := by
  obtain ⟨x, hvalue, -, hshort⟩ :=
    avg_closest (s := 28) (by decide) readsAs_nearHalf (by decide) nearHalf_exact nearHalf_small
  exact ⟨x, hvalue, hshort fallsShort_nearHalf⟩

/-- The mean is nothing when it is rounded once, and the average is a cent. -/
theorem avg_nearHalf :
    nearHalf ≠ [] ∧ ReadsAs 2 nearHalf nearHalfRead ∧ (nearHalfRead.map Decimal.scale).max? = some 28 ∧
      (nearHalfRead.map fun d => |d.value|).sum * 10 ^ 28 < 2 ^ 96 ∧
      |(nearHalfRead.map Decimal.value).sum| ≤ nearHalf.length * 10 ^ 13 ∧
      avg.ofGroup 2 nearHalf = some (.number (Double.ofRatio false 1 100)) ∧
      toCents (Decimal.mean nearHalfRead) = 0 ∧ ¬(Double.ofRatio false 1 100).IsClosestTo 0 := by
  refine ⟨by decide, readsAs_nearHalf, by decide, nearHalf_exact, nearHalf_small, by decide +kernel, ?_, ?_⟩
  · have hnone : hundredths (Decimal.mean nearHalfRead) = 0 := by
      refine Nat.floor_eq_zero.2 ?_
      rw [mean_nearHalf]
      norm_num [abs_of_nonneg]
    rw [toCents, hnone, Nat.cast_zero, zero_div, signed, neg_zero, ite_self]
  · intro hclosest
    obtain ⟨hfinite, hvalue⟩ := Double.value_ofInt (n := 0) (by decide)
    have hcent := hclosest.value_eq hfinite (by rw [hvalue, Int.cast_zero])
    have hposition : (Double.ofRatio false 1 100).position ≠ 0 := by decide +kernel
    have hunit : (2 : ℚ) ^ 1074 ≠ 0 := pow_ne_zero 1074 two_ne_zero
    exact (div_ne_zero (Int.cast_ne_zero.2 hposition) hunit) hcent

end Reduction

end CampusQuery
