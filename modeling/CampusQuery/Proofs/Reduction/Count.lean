import CampusQuery.Proofs.Cell.Equality
import CampusQuery.Reduction
import Mathlib.Tactic

/-! Counts of distinct cells. Main statement: a count is the number of classes of equal cells in a column, and one
more for each further bit pattern among the not-a-numbers there. How often a cell is there, and where, does not
matter. -/

namespace CampusQuery

theorem length_eraseDups {α : Type} [DecidableEq α] (ks : List α) : ks.eraseDups.length = ks.toFinset.card := by
  induction ks using List.reverseRecOn with
  | nil => rfl
  | append_singleton ks k ih =>
    rw [eraseDups_concat, List.toFinset_append, List.toFinset_cons, List.toFinset_nil, insert_empty_eq,
      Finset.union_singleton]
    by_cases hk : k ∈ ks
    · rw [if_pos (by simpa using hk), Finset.insert_eq_self.2 (List.mem_toFinset.2 hk), ih]
    · rw [if_neg (by simpa using hk), Finset.card_insert_of_notMem (mt List.mem_toFinset.1 hk), List.length_append,
        List.length_singleton, ih]

namespace Cell

/-- The classes of equal cells in a list. -/
def classes (cells : List Cell) : Finset (Quotient equality) :=
  cells.toFinset.image fun c => ⟦c⟧

/-- The bit patterns of the not-a-numbers in a list. -/
def patterns (cells : List Cell) : Finset Cell := cells.toFinset.filter fun c => c.isNaN = true

theorem card_classes (cells : List Cell) : (classes cells).card = (cells.toFinset.image plain).card := by
  let representative : Quotient equality → Cell :=
    Quotient.lift plain fun _ _ h => same_iff_plain.1 h
  have hinjective : Function.Injective representative := by
    intro q r
    induction q, r using Quotient.inductionOn₂ with
    | _ c d => exact fun h => Quotient.sound (same_iff_plain.2 h)
  have himage : (classes cells).image representative = cells.toFinset.image plain := Finset.image_image
  rw [← himage, Finset.card_image_of_injective _ hinjective]

/-- What keeps apart numbers and not-a-numbers has as many values as it has on either. -/
theorem card_image_eq_add {place : Cell → Cell} (hplace : ∀ c, (place c).isNaN = c.isNaN) (cells : List Cell) :
    (cells.toFinset.image place).card =
      ((patterns cells).image place).card +
        ((cells.toFinset.filter fun c => ¬c.isNaN = true).image place).card := by
  rw [← Finset.card_filter_add_card_filter_not (fun c => c.isNaN = true), Finset.filter_image, Finset.filter_image]
  simp only [hplace]
  rfl

theorem image_filing_patterns (cells : List Cell) : (patterns cells).image filing = patterns cells := by
  have hsame : ∀ c ∈ patterns cells, c.filing = id c := fun c hc => filing_of_isNaN (Finset.mem_filter.1 hc).2
  rw [Finset.image_congr hsame, Finset.image_id]

theorem card_image_plain_patterns (cells : List Cell) :
    ((patterns cells).image plain).card = min 1 (patterns cells).card := by
  have hsame : ∀ c ∈ patterns cells, c.plain = number .undefined := fun c hc => if_pos (Finset.mem_filter.1 hc).2
  rw [Finset.image_congr hsame]
  rcases (patterns cells).eq_empty_or_nonempty with hempty | hnonempty
  · rw [hempty]
    rfl
  · rw [Finset.image_const hnonempty, Finset.card_singleton, min_eq_left (Finset.one_le_card.2 hnonempty)]

/-- Numbers and texts are filed under the same key just if they are equal; of the not-a-numbers all but the first
are too many. -/
theorem card_image_filing (cells : List Cell) :
    (cells.toFinset.image filing).card = (classes cells).card + ((patterns cells).card - 1) := by
  have hrest : (cells.toFinset.filter fun c => ¬c.isNaN = true).image plain =
      (cells.toFinset.filter fun c => ¬c.isNaN = true).image filing :=
    Finset.image_congr fun c hc => if_neg (Finset.mem_filter.1 hc).2
  rw [card_classes, card_image_eq_add isNaN_filing, card_image_eq_add isNaN_plain, hrest, image_filing_patterns,
    card_image_plain_patterns]
  omega

end Cell

theorem distinctCount_eq_card (cells : List Cell) : distinctCount cells = (cells.toFinset.image Cell.filing).card := by
  have hkeys : (cells.map Cell.filing).toFinset = cells.toFinset.image Cell.filing := by
    ext key
    simp only [List.mem_toFinset, List.mem_map, Finset.mem_image]
  rw [distinctCount_eq, length_eraseDups, hkeys]

namespace Reduction

/-- The cells that the rows of a group have in a column. -/
def column (index : ℕ) (group : List Row) : List Cell := group.filterMap (·[index]?)

theorem count_ofGroup (index : ℕ) (group : List Row) :
    count.ofGroup index group = some (.number (.ofNat (distinctCount (column index group)))) := rfl

/-- Equal cells count once, unless they are not-a-numbers with different bits. -/
theorem count_eq_card_classes (index : ℕ) (group : List Row) :
    count.ofGroup index group = some (.number (.ofNat
        ((Cell.classes (column index group)).card + ((Cell.patterns (column index group)).card - 1)))) ∧
      ((Cell.patterns (column index group)).card ≤ 1 ↔ ∀ c ∈ column index group, ∀ d ∈ column index group,
        c.isNaN = true → d.isNaN = true → c = d) ∧
      ∀ others : List Row, (∀ c, c ∈ column index others ↔ c ∈ column index group) →
        count.ofGroup index others = count.ofGroup index group := by
  refine ⟨?_, ?_, fun others hothers => ?_⟩
  · rw [count_ofGroup, distinctCount_eq_card, Cell.card_image_filing]
  · rw [Finset.card_le_one]
    simp only [Cell.patterns, Finset.mem_filter, List.mem_toFinset]
    exact ⟨fun h c hc d hd hcNaN hdNaN => h c ⟨hc, hcNaN⟩ d ⟨hd, hdNaN⟩,
      fun h c hc d hd => h c hc.1 d hd.1 hc.2 hd.2⟩
  · have hcells : (column index others).toFinset = (column index group).toFinset := by
      ext c
      rw [List.mem_toFinset, List.mem_toFinset, hothers]
    rw [count_ofGroup, count_ofGroup, distinctCount_eq_card, distinctCount_eq_card, hcells]

/-- Not-a-numbers that differ in their sign are one class, and two patterns. -/
example :
    let cells : List Cell := [.number .undefined, .number (.nan true 0x8000000000000 (by decide))]
    (Cell.classes cells).card = 1 ∧ (Cell.patterns cells).card = 2 := by
  decide +kernel

end Reduction

end CampusQuery
