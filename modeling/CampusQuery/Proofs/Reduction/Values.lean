import CampusQuery.Proofs.Decimal.Range
import CampusQuery.Proofs.Transformation.Reading
import CampusQuery.Reduction

/-! Which reductions have a value, and what it is made of. Main statement: over a group that has a row, and whose
rows fit the kind, each application that fits the kind has a number, and every decimal on the way to it is in
range. -/

namespace CampusQuery

namespace Total

theorem decimalSum?_inRange {xs : List Double} {sum : Decimal} (h : decimalSum? xs = some sum) :
    sum.InRange := by
  obtain ⟨ds, hds, hsum⟩ := Option.bind_eq_some_iff.1 h
  refine Decimal.sum?_inRange (fun d hd => ?_) hsum
  clear h hsum
  induction xs generalizing ds with
  | nil =>
    obtain rfl := Option.some.inj hds
    cases hd
  | cons x xs ih =>
    rw [List.mapM_cons] at hds
    obtain ⟨d', hd', hds⟩ := Option.bind_eq_some_iff.1 hds
    obtain ⟨ds', hds', hcons⟩ := Option.bind_eq_some_iff.1 hds
    obtain rfl := Option.some.inj hcons
    rcases List.mem_cons.1 hd with rfl | hmem
    · exact Decimal.ofDouble?_inRange hd'
    · exact ih ds' hds' hmem

theorem inRange_of_eq_exact {xs : List Double} {sum : Decimal} (h : of xs = exact sum) : sum.InRange := by
  unfold of at h
  cases hsum : decimalSum? xs with
  | none =>
    rw [hsum] at h
    cases h
  | some sum' =>
    rw [hsum] at h
    obtain rfl := Total.exact.inj h
    exact decimalSum?_inRange hsum

/-- These are the decimals that the numbers are read as. -/
def ConvertsTo (xs : List Double) (ds : List Decimal) : Prop :=
  List.Forall₂ (fun x d => Decimal.ofDouble? x = some d) xs ds

variable {xs : List Double} {ds : List Decimal}

theorem ConvertsTo.decimalSum?_eq (h : ConvertsTo xs ds) : decimalSum? xs = Decimal.sum? ds := by
  have hmap : xs.mapM Decimal.ofDouble? = some ds := by
    induction h with
    | nil => rfl
    | cons hread _ ih =>
      rw [List.mapM_cons, hread, ih]
      rfl
  unfold decimalSum?
  rw [hmap]
  rfl

/-- Numbers that have a decimal sum are not added as doubles. -/
theorem ConvertsTo.of_eq {sum : Decimal} (h : ConvertsTo xs ds) (hsum : Decimal.sum? ds = some sum) :
    of xs = exact sum := by
  unfold of
  rw [h.decimalSum?_eq, hsum]

end Total

namespace Reduction

/-- The numbers that a group of rows holds in a field. Text, and cells that a row lacks, are passed over. -/
def numbersIn (index : ℕ) (group : List Row) : List Double :=
  (group.filterMap (·[index]?)).filterMap Cell.number?

variable {index : ℕ} {group : List Row} {x : Double} {xs : List Double}

theorem numbersIn_cons {row : Row} (h : row[index]? = some (.number x)) :
    numbersIn index (row :: group) = x :: numbersIn index group := by
  unfold numbersIn
  rw [List.filterMap_cons_some (f := (·[index]?)) h, List.filterMap_cons_some (f := Cell.number?) rfl]

theorem max_ofGroup (h : numbersIn index group = x :: xs) :
    max.ofGroup index group = some (.number (xs.foldl Double.max x)) := by
  unfold numbersIn at h
  unfold ofGroup ofCells
  rw [h]

theorem min_ofGroup (h : numbersIn index group = x :: xs) :
    min.ofGroup index group = some (.number (xs.foldl Double.min x)) := by
  unfold numbersIn at h
  unfold ofGroup ofCells
  rw [h]

theorem sum_ofGroup (h : numbersIn index group ≠ []) :
    sum.ofGroup index group = some (.number (Total.of (numbersIn index group)).toDouble) := by
  obtain ⟨x, xs, hcons⟩ := List.exists_cons_of_ne_nil h
  rw [hcons]
  unfold numbersIn at hcons
  unfold ofGroup ofCells
  rw [hcons]

theorem avg_ofGroup (h : numbersIn index group ≠ []) :
    avg.ofGroup index group = some (.number ((Total.of (numbersIn index group)).mean group.length)) := by
  obtain ⟨x, xs, hcons⟩ := List.exists_cons_of_ne_nil h
  rw [hcons]
  unfold numbersIn at hcons
  unfold ofGroup ofCells
  rw [hcons]

end Reduction

/-- A reduction has a value unless it needs numbers and there are none. The value is a number. -/
theorem Reduction.exists_ofCells (r : Reduction) (size : ℕ) {cells : List Cell}
    (h : r.needsNumbers = true → cells.filterMap Cell.number? ≠ []) :
    ∃ x, r.ofCells size cells = some (.number x) := by
  cases r with
  | count => exact ⟨_, rfl⟩
  | _ =>
    obtain ⟨x, xs, hnumbers⟩ := List.exists_cons_of_ne_nil (h rfl)
    unfold ofCells
    rw [hnumbers]
    exact ⟨_, rfl⟩

/-- The rows are not none, and they fit the kind. -/
structure IsGroupOf (group : List Row) (kind : Kind) : Prop where
  ne_nil : group ≠ []
  conforms : ∀ row ∈ group, row.conforms kind = true

namespace Application

/-- Wherever the reduction over a group might be left without a value, it has one: each row has a cell,
and decimals find room when they are added, divided by the size of the group and written as numbers. -/
structure CompleteOn (a : Application) (group : List Row) : Prop where
  cell : ∀ row ∈ group, (row[a.field.index]?).isSome = true
  value : ∃ x, a.reduction.ofGroup a.field.index group = some (.number x)
  numbers : a.reduction.needsNumbers = true → Reduction.numbersIn a.field.index group ≠ []
  divisor : 0 < group.length
  decimal : ∀ sum, Total.of (Reduction.numbersIn a.field.index group) = .exact sum →
    sum.InRange ∧ (sum.divNat group.length).InRange ∧ 10 ^ sum.roundToCents.scale < 2 ^ 64 ∧
      10 ^ (sum.divNat group.length).roundToCents.scale < 2 ^ 64

theorem Fits.numbers_ne_nil {a : Application} {scope : Scope} (h : a.Fits scope) {group : List Row}
    (hgroup : IsGroupOf group scope.kind) (hneeds : a.reduction.needsNumbers = true) :
    Reduction.numbersIn a.field.index group ≠ [] := by
  obtain ⟨row, hrow⟩ := List.exists_mem_of_ne_nil group hgroup.ne_nil
  obtain ⟨c, hc, htype⟩ := Row.exists_cell (hgroup.conforms row hrow) h.field.isOf
  rw [h.numeric hneeds] at htype
  cases c with
  | number x =>
    have hcell : .number x ∈ group.filterMap (·[a.field.index]?) := List.mem_filterMap.2 ⟨row, hrow, hc⟩
    exact List.ne_nil_of_mem (List.mem_filterMap.2 ⟨_, hcell, rfl⟩)
  | text s => cases htype

theorem Fits.completeOn {a : Application} {scope : Scope} (h : a.Fits scope) {group : List Row}
    (hgroup : IsGroupOf group scope.kind) : a.CompleteOn group := by
  have hdivisor := List.length_pos_of_ne_nil hgroup.ne_nil
  refine ⟨fun row hrow => ?_, ?_, h.numbers_ne_nil hgroup, hdivisor, fun sum hsum => ?_⟩
  · obtain ⟨c, hc, -⟩ := Row.exists_cell (hgroup.conforms row hrow) h.field.isOf
    rw [hc]
    rfl
  · exact Reduction.exists_ofCells _ _ (h.numbers_ne_nil hgroup)
  · have hrange := Total.inRange_of_eq_exact hsum
    exact ⟨hrange, Decimal.divNat_inRange hrange hdivisor, Decimal.ten_pow_scale_roundToCents_lt _,
      Decimal.ten_pow_scale_roundToCents_lt _⟩

end Application

end CampusQuery
