import CampusQuery.Cell
import CampusQuery.Proofs.Double.Canonical

/-! Equal cells. Main statement: cells are equal if they are filed under the same key or are both
not-a-numbers, so that equality is an equivalence. -/

namespace CampusQuery.Cell

/-- Whether the cell is a not-a-number. -/
def isNaN : Cell → Bool
  | number x => x.isNaN
  | text _ => false

/-- A zero is filed without its sign, and any other number as it is. -/
theorem filing_number (x : Double) : (number x).filing = number (if x.isZero then .zero else x) := by
  by_cases hzero : x.isZero = true
  · rw [if_pos hzero]
    rcases Double.eq_zero_or_of_isZero hzero with rfl | rfl <;> rfl
  · rw [if_neg hzero]
    unfold filing
    split
    · next hx =>
      obtain rfl := number.inj hx
      exact absurd (by simp [Double.isZero, Double.isFinite, Double.magnitude]) hzero
    · rfl

theorem filing_text (s : String) : (text s).filing = text s := rfl

theorem isNaN_filing (c : Cell) : c.filing.isNaN = c.isNaN := by
  cases c with
  | number x =>
    rw [filing_number]
    split
    · next hzero => exact (Double.not_isNaN_of_isZero hzero).symm
    · rfl
  | text s => rfl

/-- Each bit pattern of a not-a-number is filed in a place of its own. -/
theorem filing_of_isNaN {c : Cell} (h : c.isNaN = true) : c.filing = c := by
  cases c with
  | number x =>
    rw [filing_number, if_neg]
    intro hzero
    exact Bool.false_ne_true ((Double.not_isNaN_of_isZero hzero).symm.trans h)
  | text s => rfl

theorem filing_number_eq_iff (x y : Double) :
    (number x).filing = (number y).filing ↔ x = y ∨ (x.isZero = true ∧ y.isZero = true) := by
  rw [filing_number, filing_number, number.injEq]
  constructor
  · intro h
    split at h <;> split at h
    · next hx hy => exact .inr ⟨hx, hy⟩
    · next hy => exact absurd (h ▸ rfl) hy
    · next hx _ => exact absurd (h ▸ rfl) hx
    · exact .inl h
  · rintro (rfl | ⟨hx, hy⟩)
    · rfl
    · rw [if_pos hx, if_pos hy]

theorem same_iff_filing {c d : Cell} :
    c.same d = true ↔ c.filing = d.filing ∨ (c.isNaN = true ∧ d.isNaN = true) := by
  cases c with
  | number x =>
    cases d with
    | number y =>
      rw [filing_number_eq_iff, same, Double.same_iff, or_assoc]
      exact or_congr_right or_comm
    | text t => simp [filing_number, filing_text, same, isNaN]
  | text s =>
    cases d with
    | number y => simp [filing_number, filing_text, same, isNaN]
    | text t => simp [filing_text, same, isNaN]

/-- What a cell is filed under, with one place for all not-a-numbers. -/
def plain (c : Cell) : Cell := if c.isNaN then number .undefined else c.filing

theorem isNaN_plain (c : Cell) : c.plain.isNaN = c.isNaN := by
  unfold plain
  split
  · next h => exact h.symm
  · exact isNaN_filing c

theorem same_iff_plain {c d : Cell} : c.same d = true ↔ c.plain = d.plain := by
  rw [same_iff_filing]
  by_cases hnan : c.isNaN = d.isNaN
  · unfold plain
    rw [← hnan]
    cases c.isNaN <;> simp
  · refine iff_of_false ?_ fun h => hnan ?_
    · rintro (h | ⟨hc, hd⟩)
      · exact hnan (by rw [← isNaN_filing c, h, isNaN_filing])
      · exact hnan (hc.trans hd.symm)
    · rw [← isNaN_plain c, h, isNaN_plain]

/-- Equality of cells is an equivalence. -/
instance equality : Setoid Cell where
  r c d := c.same d = true
  iseqv :=
    { refl := fun _ => same_iff_plain.2 rfl
      symm := fun h => same_iff_plain.2 (same_iff_plain.1 h).symm
      trans := fun h h' => same_iff_plain.2 ((same_iff_plain.1 h).trans (same_iff_plain.1 h')) }

instance (c d : Cell) : Decidable (c ≈ d) := inferInstanceAs (Decidable (c.same d = true))

end CampusQuery.Cell
