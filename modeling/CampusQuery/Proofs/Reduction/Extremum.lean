import CampusQuery.Proofs.Cell.Equality
import CampusQuery.Proofs.Double.Extremum
import CampusQuery.Proofs.Reduction.Values

/-! Maxima and minima of columns. Main statement: there is one just if the column has a number, it is one of the
numbers there and not exceeded by any that is no not-a-number, and rows in another order have an equal one. -/

namespace CampusQuery

namespace Double

variable {P : Double → Prop} {rel : Double → Double → Prop} {x y : Double}

/-- One of the doubles with the property, in the relation to each of them, and a not-a-number only if all are. -/
structure IsExtreme (P : Double → Prop) (rel : Double → Double → Prop) (x : Double) : Prop where
  holds : P x
  isNaN_iff : x.isNaN = true ↔ ∀ y, P y → y.isNaN = true
  bound : ∀ y, P y → rel x y

/-- A relation that only numbers have to numbers, and both ways only to equal ones. -/
structure OrdersNumbers (rel : Double → Double → Prop) : Prop where
  isNaN : ∀ {x y}, rel x y → y.isNaN = false → x.isNaN = false
  same : ∀ {x y}, rel x y → rel y x → x.isNaN = false → y.isNaN = false → x.same y = true

theorem same_of_le_of_le (hxy : x.le y = true) (hyx : y.le x = true) : x.same y = true := by
  obtain ⟨hx, hy, hle⟩ := le_iff.1 hxy
  obtain ⟨-, -, hge⟩ := le_iff.1 hyx
  unfold same eq
  simp [hx, hy, le_antisymm hle hge]

theorem ordersNumbers_below : OrdersNumbers Below where
  isNaN h hy := (le_iff.1 (h hy)).1
  same hxy hyx hx hy := same_of_le_of_le (hxy hy) (hyx hx)

theorem ordersNumbers_above : OrdersNumbers Above where
  isNaN h hy := (le_iff.1 (h hy)).2.1
  same hxy hyx hx hy := same_of_le_of_le (hyx hx) (hxy hy)

theorem OrdersNumbers.isExtreme (h : OrdersNumbers rel) (hx : P x) (hbound : ∀ y, P y → rel x y) :
    IsExtreme P rel x where
  holds := hx
  isNaN_iff := by
    refine ⟨fun hnan y hy => ?_, fun hall => hall x hx⟩
    by_contra hnumber
    rw [h.isNaN (hbound y hy) (Bool.eq_false_of_not_eq_true hnumber)] at hnan
    cases hnan
  bound := hbound

theorem IsExtreme.same (hrel : OrdersNumbers rel) (hx : IsExtreme P rel x) (hy : IsExtreme P rel y) :
    x.same y = true := by
  have hnan : x.isNaN = y.isNaN := Bool.eq_iff_iff.2 (hx.isNaN_iff.trans hy.isNaN_iff.symm)
  cases hxNaN : x.isNaN with
  | true => exact (same_iff x y).2 (.inr (.inl ⟨hxNaN, hnan ▸ hxNaN⟩))
  | false => exact hrel.same (hx.bound y hy.holds) (hy.bound x hx.holds) hxNaN (hnan ▸ hxNaN)

end Double

namespace Reduction

/-- Some row of the group has the number in the column. -/
def HasNumber (index : ℕ) (group : List Row) (x : Double) : Prop := ∃ row ∈ group, row[index]? = some (.number x)

theorem mem_numbersIn_iff {index : ℕ} {group : List Row} {x : Double} :
    x ∈ numbersIn index group ↔ HasNumber index group x := by
  simp only [numbersIn, HasNumber, List.mem_filterMap]
  constructor
  · rintro ⟨c, ⟨row, hrow, hc⟩, hx⟩
    cases c with
    | number y => exact ⟨row, hrow, Option.some.inj hx ▸ hc⟩
    | text s => cases hx
  · rintro ⟨row, hrow, hx⟩
    exact ⟨.number x, ⟨row, hrow, hx⟩, rfl⟩

theorem hasNumber_perm {index : ℕ} {group others : List Row} (h : others.Perm group) :
    HasNumber index others = HasNumber index group := by
  funext x
  simp only [HasNumber, h.mem_iff]

/-- The value is there if any number is, it is extreme among the numbers, and the order of the rows is nothing
to it. -/
structure FindsExtreme (r : Reduction) (rel : Double → Double → Prop) (index : ℕ) (group : List Row) : Prop where
  none_iff : r.ofGroup index group = none ↔ ∀ x, ¬HasNumber index group x
  extreme : ∀ c, r.ofGroup index group = some c →
    ∃ x, c = .number x ∧ Double.IsExtreme (HasNumber index group) rel x
  order : ∀ others : List Row, others.Perm group →
    Option.Rel (fun c d => c.same d = true) (r.ofGroup index others) (r.ofGroup index group)

section Choice

variable {r : Reduction} {rel : Double → Double → Prop} {index : ℕ} {group : List Row}

/-- There are no numbers and no value, or there is an extreme one among the numbers. -/
def Chooses (r : Reduction) (rel : Double → Double → Prop) (index : ℕ) (group : List Row) : Prop :=
  (r.ofGroup index group = none ∧ ∀ x, ¬HasNumber index group x) ∨
    ∃ x, r.ofGroup index group = some (.number x) ∧ Double.IsExtreme (HasNumber index group) rel x

theorem Chooses.same {others : List Row} (hrel : Double.OrdersNumbers rel) (hothers : Chooses r rel index others)
    (hgroup : Chooses r rel index group) (hnumbers : HasNumber index others = HasNumber index group) :
    Option.Rel (fun c d => c.same d = true) (r.ofGroup index others) (r.ofGroup index group) := by
  unfold Chooses at hothers
  rw [hnumbers] at hothers
  rcases hothers with ⟨hnone, hempty⟩ | ⟨x, hx, hextreme⟩
  · rcases hgroup with ⟨hnone', -⟩ | ⟨y, -, hextreme'⟩
    · rw [hnone, hnone']
      exact .none
    · exact absurd hextreme'.holds (hempty y)
  · rcases hgroup with ⟨-, hempty'⟩ | ⟨y, hy, hextreme'⟩
    · exact absurd hextreme.holds (hempty' x)
    · rw [hx, hy]
      exact .some (hextreme.same hrel hextreme')

theorem findsExtreme (hrel : Double.OrdersNumbers rel) (h : ∀ group, Chooses r rel index group) :
    FindsExtreme r rel index group where
  none_iff := by
    rcases h group with ⟨hnone, hempty⟩ | ⟨x, hx, hextreme⟩
    · exact iff_of_true hnone hempty
    · exact iff_of_false (by simp [hx]) fun hempty => hempty x hextreme.holds
  extreme c hc := by
    rcases h group with ⟨hnone, -⟩ | ⟨x, hx, hextreme⟩
    · cases hnone.symm.trans hc
    · exact ⟨x, Option.some.inj (hc.symm.trans hx), hextreme⟩
  order others hperm := (h others).same hrel (h group) (hasNumber_perm hperm)

theorem ofGroup_eq_none (hneeds : r.needsNumbers = true) (h : numbersIn index group = []) :
    r.ofGroup index group = none := by
  unfold numbersIn at h
  unfold ofGroup ofCells
  cases r with
  | count => cases hneeds
  | _ => rw [h]

theorem chooses_of_foldl {op : Double → Double → Double} (hrel : Double.OrdersNumbers rel)
    (hspec : ∀ x xs, xs.foldl op x ∈ x :: xs ∧ ∀ y ∈ x :: xs, rel (xs.foldl op x) y)
    (hneeds : r.needsNumbers = true)
    (hsome : ∀ x xs, numbersIn index group = x :: xs → r.ofGroup index group = some (.number (xs.foldl op x))) :
    Chooses r rel index group := by
  cases hnumbers : numbersIn index group with
  | nil =>
    refine .inl ⟨ofGroup_eq_none hneeds hnumbers, fun x hx => ?_⟩
    rw [← mem_numbersIn_iff, hnumbers] at hx
    cases hx
  | cons x xs =>
    obtain ⟨hmem, hbound⟩ := hspec x xs
    rw [← hnumbers] at hmem hbound
    refine .inr ⟨_, hsome x xs hnumbers, hrel.isExtreme (mem_numbersIn_iff.1 hmem) fun y hy => ?_⟩
    exact hbound y (mem_numbersIn_iff.2 hy)

end Choice

/-- The maximum has no greater number beside it, and the minimum no smaller one. -/
theorem max_min_findsExtreme (index : ℕ) (group : List Row) :
    FindsExtreme max Double.Above index group ∧ FindsExtreme min Double.Below index group :=
  ⟨findsExtreme Double.ordersNumbers_above fun _ =>
      chooses_of_foldl Double.ordersNumbers_above Double.foldl_max_spec rfl fun _ _ => max_ofGroup,
    findsExtreme Double.ordersNumbers_below fun _ =>
      chooses_of_foldl Double.ordersNumbers_below Double.foldl_min_spec rfl fun _ _ => min_ofGroup⟩

/-- Not-a-numbers, texts and rows without a cell are passed over. -/
example : max.ofGroup 0 [[.number .undefined], [.number .zero], [], [.text "9"], [.number (.infinite true)]] =
    some (.number .zero) := by decide +kernel

end Reduction

end CampusQuery
