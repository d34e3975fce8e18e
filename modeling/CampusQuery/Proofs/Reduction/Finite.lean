import CampusQuery.Proofs.Double.Finite
import CampusQuery.Proofs.Reduction.Values
import CampusQuery.Proofs.Row.Ingestion

/-! When reductions of finite numbers are finite. Main statement: all of them are but for sums and averages of
numbers that have no sum among the decimals and, added as doubles, leave the finite ones on the way. -/

namespace CampusQuery

theorem distinctCount_le (cells : List Cell) : distinctCount cells ≤ cells.length := by
  suffices hfold : ∀ seen : Std.HashSet Cell,
      (cells.foldl (fun (seen : Std.HashSet Cell) c => seen.insert c.filing) seen).size ≤
        seen.size + cells.length by
    simpa [distinctCount] using hfold ∅
  induction cells with
  | nil => exact fun seen => le_rfl
  | cons c cells ih =>
    intro seen
    have hinsert : (seen.insert c.filing).size ≤ seen.size + 1 := Std.HashSet.size_insert_le
    have hrest := ih (seen.insert c.filing)
    rw [List.foldl_cons, List.length_cons]
    omega

theorem Double.isFinite_ofNat {n : ℕ} (h : n ≤ 2 ^ 64) : (ofNat n).isFinite = true := by
  rw [ofNat_eq_ofInt]
  exact isFinite_ofInt (by decide) h

namespace Decimal

/-- What is rounded to cents has a number in the range of doubles. -/
theorem isFinite_toDouble {a : Decimal} (h : a.InRange) : a.roundToCents.toDouble.isFinite = true := by
  have hbound : a.roundToCents.coefficient.natAbs ≤ 2 ^ 96 := by
    have hroom : a.coefficient.natAbs < 2 ^ 96 := h.1
    unfold roundToCents
    split
    · exact hroom.le
    · dsimp only
      rw [natAbs_ofMagnitude]
      have hunit : 0 < 10 ^ (a.scale - 2) := by positivity
      refine Nat.div_le_of_le_mul ?_
      nlinarith
  unfold toDouble
  rw [Double.isFinite_div_ofNat _ (by positivity)]
  exact Double.isFinite_ofInt (by decide) hbound

end Decimal

namespace Total

variable {xs : List Double}

/-- The numbers have no sum among the decimals, and none that is finite among the doubles. -/
def Overflows (xs : List Double) : Prop := decimalSum? xs = none ∧ (Double.sum xs).isFinite = false

theorem of_cases (xs : List Double) :
    (∃ sum, of xs = exact sum ∧ sum.InRange ∧ ¬Overflows xs) ∨
      of xs = rounded (Double.sum xs) ∧ (Overflows xs ↔ (Double.sum xs).isFinite = false) := by
  unfold of Overflows
  cases hsum : decimalSum? xs with
  | some sum => exact .inl ⟨sum, rfl, decimalSum?_inRange hsum, by simp⟩
  | none => exact .inr ⟨rfl, by simp⟩

theorem toDouble_isFinite_iff : (of xs).toDouble.isFinite = false ↔ Overflows xs := by
  rcases of_cases xs with ⟨sum, hof, hrange, hnot⟩ | ⟨hof, hiff⟩
  · rw [hof, toDouble, Decimal.isFinite_toDouble hrange]
    simp [hnot]
  · rw [hof, toDouble, Double.isFinite_roundToCents, hiff]

theorem mean_isFinite_iff {count : ℕ} (hcount : 0 < count) :
    ((of xs).mean count).isFinite = false ↔ Overflows xs := by
  rcases of_cases xs with ⟨sum, hof, hrange, hnot⟩ | ⟨hof, hiff⟩
  · rw [hof, mean, Decimal.isFinite_toDouble (Decimal.divNat_inRange hrange hcount)]
    simp [hnot]
  · rw [hof, mean, Double.isFinite_roundToCents, Double.isFinite_div_ofNat _ hcount, hiff]

end Total

namespace Double

theorem isFinite_max {x y : Double} (hx : x.isFinite = true) (hy : y.isFinite = true) :
    (x.max y).isFinite = true := by
  unfold max
  split_ifs <;> assumption

theorem isFinite_min {x y : Double} (hx : x.isFinite = true) (hy : y.isFinite = true) :
    (x.min y).isFinite = true := by
  unfold min
  split_ifs <;> assumption

theorem isFinite_foldl {op : Double → Double → Double}
    (hop : ∀ {x y : Double}, x.isFinite = true → y.isFinite = true → (op x y).isFinite = true) {x : Double}
    {xs : List Double} (h : ∀ y ∈ x :: xs, y.isFinite = true) : (xs.foldl op x).isFinite = true := by
  obtain ⟨hx, hxs⟩ := List.forall_mem_cons.1 h
  exact List.foldlRecOn (motive := fun y => y.isFinite = true) xs op hx fun _ hy z hz => hop hy (hxs z hz)

end Double

/-- The greatest and the least of some numbers are among them, and there are no more distinct cells than cells. -/
theorem Reduction.ofCells_isFinite_iff {r : Reduction} {size : ℕ} {cells : List Cell} {x : Double}
    (hsize : 0 < size) (hcells : cells.length ≤ 2 ^ 64)
    (hfinite : ∀ y ∈ cells.filterMap Cell.number?, y.isFinite = true)
    (h : r.ofCells size cells = some (.number x)) :
    x.isFinite = false ↔ r ∈ [.sum, .avg] ∧ Total.Overflows (cells.filterMap Cell.number?) := by
  unfold ofCells at h
  generalize cells.filterMap Cell.number? = ys at h hfinite ⊢
  cases r with
  | count =>
    obtain rfl := Cell.number.inj (Option.some.inj h)
    simp [Double.isFinite_ofNat ((distinctCount_le cells).trans hcells)]
  | max =>
    cases ys with
    | nil => cases h
    | cons y ys =>
      obtain rfl := Cell.number.inj (Option.some.inj h)
      simp [Double.isFinite_foldl Double.isFinite_max hfinite]
  | min =>
    cases ys with
    | nil => cases h
    | cons y ys =>
      obtain rfl := Cell.number.inj (Option.some.inj h)
      simp [Double.isFinite_foldl Double.isFinite_min hfinite]
  | sum =>
    cases ys with
    | nil => cases h
    | cons y ys =>
      obtain rfl := Cell.number.inj (Option.some.inj h)
      rw [Total.toDouble_isFinite_iff]
      simp
  | avg =>
    cases ys with
    | nil => cases h
    | cons y ys =>
      obtain rfl := Cell.number.inj (Option.some.inj h)
      rw [Total.mean_isFinite_iff hsize]
      simp

/-- The numbers that the application adds up overflow. -/
def Application.Overflows (a : Application) (group : List Row) : Prop :=
  a.reduction ∈ [.sum, .avg] ∧ Total.Overflows (Reduction.numbersIn a.field.index group)

theorem Application.value_isFinite_iff {a : Application} {group : List Row} (hne : group ≠ [])
    (hsize : group.length ≤ 2 ^ 64) (hfinite : ∀ row ∈ group, ∀ c ∈ row, c.isFinite = true) {x : Double}
    (h : a.reduction.ofGroup a.field.index group = some (.number x)) :
    x.isFinite = false ↔ a.Overflows group := by
  refine Reduction.ofCells_isFinite_iff (List.length_pos_of_ne_nil hne) ?_ (fun y hy => ?_) h
  · exact (List.length_filterMap_le ..).trans hsize
  · obtain ⟨c, hc, hnumber⟩ := List.mem_filterMap.1 hy
    obtain ⟨row, hrow, hcell⟩ := List.mem_filterMap.1 hc
    have hfinite := hfinite row hrow c (List.mem_of_getElem? hcell)
    cases c with
    | number z => exact Option.some.inj hnumber ▸ hfinite
    | text s => cases hnumber

end CampusQuery
