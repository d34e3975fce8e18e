import CampusQuery.Proofs.Attribute.Resolution
import CampusQuery.Proofs.Double.Reading
import CampusQuery.Proofs.Grouping.Classes

/-! What it takes for two rows to be put in one group. A group's key joins texts of cells with a unit
separator, and a text may hold that separator itself. Main statement: rows that differ in the number
of separators in at most one field share a group just when their cells are alike in every field. -/

namespace CampusQuery

section Joining

variable {β : Type}

theorem count_intercalate (sep : Char) (f : β → List Char) (l : List β) :
    ([sep].intercalate (l.map f)).count sep = (l.map fun b => (f b).count sep).sum + (l.length - 1) := by
  induction l with
  | nil => rfl
  | cons b l ih =>
    cases l with
    | nil => simp
    | cons b' l =>
      simp only [List.map_cons, List.intercalate_cons_cons, List.count_append, List.count_singleton_self,
        List.sum_cons, List.length_cons] at ih ⊢
      omega

/-- Of two different pieces before a separator, the longer one holds that separator. -/
theorem eq_of_append_cons_eq {sep : Char} {a b as bs : List Char} (hc : a.count sep = b.count sep)
    (h : a ++ sep :: as = b ++ sep :: bs) : a = b ∧ as = bs := by
  rcases List.append_eq_append_iff.1 h with ⟨c, rfl, hcons⟩ | ⟨c, rfl, hcons⟩
  · cases c with
    | nil => simp_all
    | cons d c =>
      obtain ⟨rfl, -⟩ := List.cons.inj hcons
      simp at hc
  · cases c with
    | nil => simp_all
    | cons d c =>
      obtain ⟨rfl, -⟩ := List.cons.inj hcons
      simp at hc

theorem eq_of_intercalate_eq {sep : Char} {f g : β → List Char} {l : List β}
    (hc : ∀ b ∈ l, (f b).count sep = (g b).count sep)
    (h : [sep].intercalate (l.map f) = [sep].intercalate (l.map g)) : ∀ b ∈ l, f b = g b := by
  induction l with
  | nil => simp
  | cons b l ih =>
    cases l with
    | nil => simpa using h
    | cons b' l =>
      simp only [List.map_cons, List.intercalate_cons_cons, List.append_assoc, List.singleton_append] at h
      obtain ⟨hb, hrest⟩ := eq_of_append_cons_eq (hc b (by simp)) h
      intro x hx
      rcases List.mem_cons.1 hx with rfl | hx
      · exact hb
      · exact ih (fun x hx => hc x (by simp [hx])) (by simpa using hrest) x hx

/-- If two sums are equal and their terms are too, but for those of one index, then those are as well. -/
theorem eq_of_sum_eq {F G : ℕ → ℕ} {l : List ℕ} {i : ℕ} (hs : (l.map F).sum = (l.map G).sum)
    (h : ∀ j ∈ l, j ≠ i → F j = G j) : ∀ j ∈ l, F j = G j := by
  have hle {F G : ℕ → ℕ} (hs : (l.map F).sum = (l.map G).sum) (h : ∀ j ∈ l, j ≠ i → F j = G j)
      (hi : i ∈ l) : G i ≤ F i := by
    by_contra hlt
    refine absurd hs (List.sum_lt_sum F G (fun j hj => ?_) ⟨i, hi, by omega⟩).ne
    rcases eq_or_ne j i with rfl | hj'
    · omega
    · exact (h j hj hj').le
  intro j hj
  rcases eq_or_ne j i with rfl | hne
  · exact le_antisymm (hle hs.symm (fun k hk hk' => (h k hk hk').symm) hj) (hle hs h hj)
  · exact h j hj hne

end Joining

namespace Cell

/-- Equal cells, unless they are zeros of different sign. -/
def Alike (c d : Cell) : Prop := c.same d = true ∧ (c = .number .zero ↔ d = .number .zero)

theorem alike_number_iff (x y : Double) :
    Alike (.number x) (.number y) ↔ x = y ∨ (x.isNaN = true ∧ y.isNaN = true) := by
  simp only [Alike, same, number.injEq, Double.same_iff]
  constructor
  · rintro ⟨h | h | ⟨hx, hy⟩, hsign⟩
    · exact .inl h
    · exact .inr h
    · rcases Double.eq_zero_or_of_isZero hx with rfl | rfl
      · exact .inl (hsign.1 rfl).symm
      · rcases Double.eq_zero_or_of_isZero hy with rfl | rfl
        · exact .inl (hsign.2 rfl)
        · exact .inl rfl
  · rintro (rfl | ⟨hx, hy⟩)
    · exact ⟨.inl rfl, Iff.rfl⟩
    · refine ⟨.inr (.inl ⟨hx, hy⟩), ?_, ?_⟩
      · rintro rfl; cases hx
      · rintro rfl; cases hy

theorem toText_eq_iff {c d : Cell} (ht : c.type = d.type) : c.toText = d.toText ↔ c.Alike d := by
  cases c with
  | number x =>
    cases d with
    | number y => rw [alike_number_iff]; exact Double.text_eq_text_iff x y
    | text t => cases ht
  | text s =>
    cases d with
    | number y => cases ht
    | text t => simp [Alike, same, toText]

/-- The unit separators in a cell. -/
def separators : Cell → ℕ
  | number _ => 0
  | text s => s.toList.count '\x1f'

theorem count_toText (c : Cell) : c.toText.toList.count '\x1f' = c.separators := by
  cases c with
  | number x => exact List.count_eq_zero.2 (Double.separator_not_mem_text x)
  | text s => rfl

end Cell

namespace Transformation

/-- Two rows are in one of the groups that the rows are put in. -/
def Together (t : Transformation) (rows : List Row) (r s : Row) : Prop :=
  ∃ g ∈ t.groups rows, r ∈ g ∧ s ∈ g

theorem together_iff {t : Transformation} {rows : List Row} {r s : Row} (hr : r ∈ rows) (hs : s ∈ rows) :
    t.Together rows r s ↔
      r.groupKey (t.group.map Attribute.index) = s.groupKey (t.group.map Attribute.index) :=
  exists_mem_classify_iff hr hs

/-- The rows have alike cells in each field of the grouping. -/
def AlikeIn (t : Transformation) (r s : Row) : Prop :=
  ∀ a ∈ t.group, ∃ c d, r[a.index]? = some c ∧ s[a.index]? = some d ∧ c.Alike d

end Transformation

namespace Row

/-- The text that a row's cell gives to a key. -/
def textAt (row : Row) (i : ℕ) : List Char := ((row[i]?).elim "" Cell.toText).toList

def separatorsAt (row : Row) (i : ℕ) : ℕ := (row[i]?).elim 0 Cell.separators

theorem count_textAt (row : Row) (i : ℕ) : (row.textAt i).count '\x1f' = row.separatorsAt i := by
  unfold textAt separatorsAt
  cases row[i]? with
  | none => rfl
  | some c => exact c.count_toText

theorem toList_groupKey (row : Row) (indices : List ℕ) :
    (row.groupKey indices).toList = ['\x1f'].intercalate (indices.map row.textAt) := by
  rw [groupKey, String.toList_intercalate, List.map_map]
  rfl

theorem groupKey_eq_of_textAt_eq {r s : Row} {indices : List ℕ} (h : ∀ j ∈ indices, r.textAt j = s.textAt j) :
    r.groupKey indices = s.groupKey indices := by
  rw [← String.toList_inj, toList_groupKey, toList_groupKey, List.map_congr_left h]

theorem textAt_eq_of_groupKey_eq {r s : Row} {indices : List ℕ} {i : ℕ}
    (hi : ∀ j ∈ indices, j ≠ i → r.separatorsAt j = s.separatorsAt j)
    (h : r.groupKey indices = s.groupKey indices) : ∀ j ∈ indices, r.textAt j = s.textAt j := by
  rw [← String.toList_inj, toList_groupKey, toList_groupKey] at h
  have hsum := congrArg (List.count '\x1f') h
  rw [count_intercalate, count_intercalate] at hsum
  have hcount := eq_of_sum_eq (Nat.add_right_cancel hsum) fun j hj hne => by
    rw [count_textAt, count_textAt, hi j hj hne]
  exact eq_of_intercalate_eq hcount h

theorem textAt_eq_iff {kind : Kind} {r s : Row} (hr : r.conforms kind = true) (hs : s.conforms kind = true)
    {a : Attribute} (ha : a.IsOf kind) :
    r.textAt a.index = s.textAt a.index ↔
      ∃ c d, r[a.index]? = some c ∧ s[a.index]? = some d ∧ c.Alike d := by
  obtain ⟨c, hc, hct⟩ := exists_cell hr ha
  obtain ⟨d, hd, hdt⟩ := exists_cell hs ha
  simp only [textAt, hc, hd, Option.elim_some, String.toList_inj, Option.some.injEq,
    Cell.toText_eq_iff (hct.trans hdt.symm)]
  simp

end Row

namespace Transformation

/-- Rows that are alike share a group. Those that share one are alike, if in each field of the grouping
but one at most they hold equally many separators. -/
theorem together_iff_alikeIn {t : Transformation} {kind : Kind} (ht : ∀ a ∈ t.group, a.IsOf kind)
    {rows : List Row} (hrows : ∀ row ∈ rows, row.conforms kind = true) {r s : Row} (hr : r ∈ rows)
    (hs : s ∈ rows) :
    (t.AlikeIn r s → t.Together rows r s) ∧
      ((∃ i, ∀ a ∈ t.group, a.index ≠ i → r.separatorsAt a.index = s.separatorsAt a.index) →
        t.Together rows r s → t.AlikeIn r s) := by
  have htext (a : Attribute) (ha : a ∈ t.group) :=
    Row.textAt_eq_iff (hrows r hr) (hrows s hs) (ht a ha)
  rw [together_iff hr hs]
  refine ⟨fun h => ?_, fun ⟨i, hi⟩ h => ?_⟩
  · apply Row.groupKey_eq_of_textAt_eq
    rw [List.forall_mem_map]
    exact fun a ha => (htext a ha).2 (h a ha)
  · have hi' : ∀ j ∈ t.group.map Attribute.index, j ≠ i → r.separatorsAt j = s.separatorsAt j :=
      List.forall_mem_map.2 hi
    have hall := Row.textAt_eq_of_groupKey_eq hi' h
    exact fun a ha => (htext a ha).1 (hall a.index (List.mem_map_of_mem ha))

/-- Grouping of sections by department and number. -/
def byCourse : Transformation := ⟨[⟨"courses", "dept", 0, .text⟩, ⟨"courses", "id", 1, .text⟩], []⟩

def byAverage : Transformation := ⟨[⟨"courses", "avg", 2, .number⟩], []⟩

def course (dept id : String) (avg : Double) : Row :=
  [.text dept, .text id, .number avg, .text "holmes", .text "intro sw eng", .number (.ofNat 30),
    .number (.ofNat 2), .number .zero, .text "31337", .number (.ofNat 2015)]

theorem together_courses :
    let rows := [course "cpsc" "310" .zero, course "math" "310" .zero, course "cpsc" "310" .negativeZero]
    (∀ a ∈ byCourse.group, a.IsOf .sections) ∧ (∀ row ∈ rows, row.conforms .sections = true) ∧
      byCourse.Together rows (course "cpsc" "310" .zero) (course "cpsc" "310" .negativeZero) ∧
      ¬ byCourse.Together rows (course "cpsc" "310" .zero) (course "math" "310" .zero) := by
  have ht : ∀ a ∈ byCourse.group, a.IsOf .sections := by decide
  have hrows : ∀ row ∈ [course "cpsc" "310" .zero, course "math" "310" .zero,
      course "cpsc" "310" .negativeZero], row.conforms .sections = true := by decide +kernel
  refine ⟨ht, hrows, (together_iff_alikeIn ht hrows (by simp) (by simp)).1 ?_, fun h => ?_⟩
  · simp [AlikeIn, byCourse, course, Cell.Alike, Cell.same]
  · have := (together_iff_alikeIn ht hrows (by simp) (by simp)).2 ⟨0, by decide +kernel⟩ h
    simp [AlikeIn, byCourse, course, Cell.Alike, Cell.same] at this

/-- Equality of cells is not what decides: zeros of different sign are equal and stand apart, and cells
with separators in them are merged across the border of two fields. -/
theorem together_ne_same :
    (let r := course "math" "310" .zero
      let s := course "math" "310" .negativeZero
      (∀ row ∈ [r, s], row.conforms .sections = true) ∧
        ¬ (byAverage.Together [r, s] r s ↔
          ∀ a ∈ byAverage.group, ∃ c d, r[a.index]? = some c ∧ s[a.index]? = some d ∧ c.same d = true)) ∧
    (let r := course "a\x1fb" "c" .zero
      let s := course "a" "b\x1fc" .zero
      (∀ row ∈ [r, s], row.conforms .sections = true) ∧
        ¬ (byCourse.Together [r, s] r s ↔
          ∀ a ∈ byCourse.group, ∃ c d, r[a.index]? = some c ∧ s[a.index]? = some d ∧ c.same d = true)) := by
  refine ⟨⟨by decide +kernel, fun h => ?_⟩, ⟨by decide +kernel, fun h => ?_⟩⟩
  · have hsame := h.2 (by simp [byAverage, course, Cell.same]; decide)
    rw [together_iff (by simp) (by simp)] at hsame
    exact absurd hsame (by decide +kernel)
  · have hkey : (course "a\x1fb" "c" .zero).groupKey (byCourse.group.map Attribute.index) =
        (course "a" "b\x1fc" .zero).groupKey (byCourse.group.map Attribute.index) := by decide +kernel
    have hsame := h.1 ((together_iff (by simp) (by simp)).2 hkey)
    simp [byCourse, course, Cell.same] at hsame

end Transformation

end CampusQuery
