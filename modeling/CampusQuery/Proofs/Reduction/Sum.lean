import CampusQuery.Proofs.Decimal.Scale
import CampusQuery.Proofs.Reduction.Finite

/-! Sums. Main statement: where there is room for the magnitudes of a group's numbers, nothing is rounded on the way
to the sum, and it is rounded to cents at the end. What order the rows are in makes no difference, as long as a
significand has room for the cents or neither order brings the sum back to zero on the way. -/

namespace CampusQuery

theorem Total.ConvertsTo.scale_eq_zero {xs : List Double} {ds : List Decimal} (h : ConvertsTo xs ds) :
    ∀ d ∈ ds, d.coefficient = 0 → d.scale = 0 :=
  forall_of_forall₂ (h.flip.imp fun _ _ hread => Decimal.ofDouble?_scale hread)

/-- In another order the numbers are read as the same decimals in that order. -/
theorem Total.ConvertsTo.perm {xs ys : List Double} {ds : List Decimal} (h : ConvertsTo xs ds) (hperm : ys.Perm xs) :
    ∃ es, ConvertsTo ys es ∧ es.Perm ds :=
  List.perm_comp_forall₂ hperm h

namespace Reduction

variable {index : ℕ} {group : List Row} {ds : List Decimal}

theorem numbersIn_perm {others : List Row} (h : others.Perm group) :
    (numbersIn index others).Perm (numbersIn index group) :=
  (h.filterMap _).filterMap _

/-- The sum is taken in decimals, and is as exact as cents are. -/
theorem exists_sum_ofGroup (hne : ds ≠ []) (hread : Total.ConvertsTo (numbersIn index group) ds)
    (hroom : Decimal.HaveRoom (Decimal.largestScale ds) ds) :
    ∃ total, Total.of (numbersIn index group) = .exact total ∧ total.roundToCents.IsCentsOf ds ∧
      sum.ofGroup index group = some (.number total.roundToCents.toDouble) := by
  obtain ⟨total, htotal, -⟩ := Decimal.exists_sum? hroom.scale_le hroom.sum_lt
  have hof := hread.of_eq htotal
  refine ⟨total, hof, hroom.isCentsOf hread.scale_eq_zero htotal, ?_⟩
  rw [sum_ofGroup (ne_nil_of_forall₂ hread.flip hne), hof]
  rfl

/-- Nothing is rounded on the way to the sum, the sum is rounded to cents, and in another order of the rows it is the
same unless it has more cents than a significand has room for and comes back to zero on the way. -/
theorem sum_exact (hne : ds ≠ []) (hread : Total.ConvertsTo (numbersIn index group) ds)
    (hroom : (ds.map fun d => |d.value|).sum * 10 ^ Decimal.largestScale ds < 2 ^ 96) :
    (∀ k, ∃ start, Decimal.sum? (ds.take k) = some start ∧ start.value = ((ds.take k).map Decimal.value).sum) ∧
      (∃ total, Total.of (numbersIn index group) = .exact total) ∧
      (∃ a : Decimal, a.IsCentsOf ds ∧ sum.ofGroup index group = some (.number a.toDouble)) ∧
      ∀ others : List Row, others.Perm group → ∃ es, Total.ConvertsTo (numbersIn index others) es ∧ es.Perm ds ∧
        (hundredths (ds.map Decimal.value).sum < 2 ^ 53 ∨ ¬Decimal.ReturnsToZero ds ∧ ¬Decimal.ReturnsToZero es →
          sum.ofGroup index others = sum.ofGroup index group) := by
  have hrooms : Decimal.HaveRoom (Decimal.largestScale ds) ds :=
    ⟨fun _ => Decimal.scale_le_largestScale, Decimal.cast_coefficientLimit ▸ hroom⟩
  obtain ⟨total, hof, hcents, hsum⟩ := exists_sum_ofGroup hne hread hrooms
  refine ⟨fun k => ?_, ⟨total, hof⟩, ⟨_, hcents, hsum⟩, fun others hothers => ?_⟩
  · exact Decimal.sum?_exact (hrooms.take k).scale_le (hrooms.take k).sum_lt
  · obtain ⟨es, hes, hperm⟩ := hread.perm (numbersIn_perm hothers)
    refine ⟨es, hes, hperm, fun hcase => ?_⟩
    have hesRooms : Decimal.HaveRoom (Decimal.largestScale es) es :=
      Decimal.largestScale_eq_of_perm hperm ▸ hrooms.perm hperm
    have hesNe : es ≠ [] := fun hnil => hne (hnil ▸ hperm).nil_eq.symm
    obtain ⟨total', -, hcents', hsum'⟩ := exists_sum_ofGroup hesNe hes hesRooms
    rw [hsum', hsum, hcents.toDouble_eq hcents' hperm hcase]

/-- Numbers of both signs and of three places, a text, and a row without a cell. -/
def mixed : List Row :=
  [[.number (Double.ofRatio false 1234 1000)], [.text "310"], [], [.number (Double.ofRatio true 5 1000)]]

def mixedRead : List Decimal := [⟨1234, 3⟩, ⟨-5, 3⟩]

theorem sum_exact_mixed :
    mixedRead ≠ [] ∧ Total.ConvertsTo (numbersIn 0 mixed) mixedRead ∧
      (mixedRead.map fun d => |d.value|).sum * 10 ^ Decimal.largestScale mixedRead < 2 ^ 96 ∧
      (∃ total, Total.of (numbersIn 0 mixed) = .exact total) ∧
      (∃ a : Decimal, a.IsCentsOf mixedRead ∧ sum.ofGroup 0 mixed = some (.number a.toDouble)) ∧
      ∀ others : List Row, others.Perm mixed → sum.ofGroup 0 others = sum.ofGroup 0 mixed := by
  have hread : Total.ConvertsTo (numbersIn 0 mixed) mixedRead :=
    .cons (by decide +kernel) (.cons (by decide +kernel) .nil)
  have hroom : (mixedRead.map fun d => |d.value|).sum * 10 ^ Decimal.largestScale mixedRead < 2 ^ 96 := by
    norm_num [mixedRead, Decimal.value, Decimal.largestScale, abs_div]
  have hsmall : hundredths (mixedRead.map Decimal.value).sum < 2 ^ 53 := by
    refine (Nat.floor_lt (by positivity)).2 ?_
    norm_num [mixedRead, Decimal.value, abs_of_nonneg]
  obtain ⟨-, hexact, hsum, horder⟩ := sum_exact (by decide) hread hroom
  refine ⟨by decide, hread, hroom, hexact, hsum, fun others hothers => ?_⟩
  obtain ⟨es, -, -, hsame⟩ := horder others hothers
  exact hsame (.inl hsmall)

/-- A row of a section with this average. -/
def sectionOf (average : Double) : Row := [.text "", .text "", .number average]

/-- Tenths that cancel before the last number is added. -/
def cancelling : List Row :=
  [sectionOf (Double.ofRatio false 1 10), sectionOf (Double.ofRatio true 1 10), sectionOf (Double.ofInt (2 ^ 53 - 1))]

def cancellingRead : List Decimal := [⟨1, 1⟩, ⟨-1, 1⟩, ⟨2 ^ 53 - 1, 0⟩]

/-- The same rows with the last two in the other order. -/
def carrying : List Row :=
  [sectionOf (Double.ofRatio false 1 10), sectionOf (Double.ofInt (2 ^ 53 - 1)), sectionOf (Double.ofRatio true 1 10)]

/-- A place that the sum needs no more, and carries along, costs it the last bit. -/
theorem sum_carrying_ne_cancelling :
    cancellingRead ≠ [] ∧ Total.ConvertsTo (numbersIn 2 cancelling) cancellingRead ∧
      (cancellingRead.map fun d => |d.value|).sum * 10 ^ Decimal.largestScale cancellingRead < 2 ^ 96 ∧
      carrying.Perm cancelling ∧ sum.ofGroup 2 cancelling = some (.number (Double.ofInt (2 ^ 53 - 1))) ∧
      sum.ofGroup 2 carrying = some (.number (Double.ofInt (2 ^ 53 - 2))) ∧
      sum.ofGroup 2 carrying ≠ sum.ofGroup 2 cancelling := by
  have hroom : (cancellingRead.map fun d => |d.value|).sum * 10 ^ Decimal.largestScale cancellingRead < 2 ^ 96 := by
    norm_num [cancellingRead, Decimal.value, Decimal.largestScale, abs_div]
  have hread : Total.ConvertsTo (numbersIn 2 cancelling) cancellingRead :=
    .cons (by decide +kernel) (.cons (by decide +kernel) (.cons (by decide +kernel) .nil))
  have hcancelling : sum.ofGroup 2 cancelling = some (.number (Double.ofInt (2 ^ 53 - 1))) := by decide +kernel
  have hcarrying : sum.ofGroup 2 carrying = some (.number (Double.ofInt (2 ^ 53 - 2))) := by decide +kernel
  refine ⟨by decide, hread, hroom, .cons _ (.swap _ _ []), hcancelling, hcarrying, ?_⟩
  rw [hcarrying, hcancelling]
  decide +kernel

end Reduction

end CampusQuery
