import CampusQuery.Proofs.Grouping.Key

/-! Grouping takes a list of rows apart by their places. Main statement: each place is in just one group, places
go up in a group and from the first row of a group to that of the next, and two rows share a group just when the
texts in the fields of the grouping, joined with unit separators, are the same. Where no text holds a separator,
that is to say that they have the same texts. -/

namespace CampusQuery

/-- Each of `n` places is in just one of the lists. They go up in each list and from the first one of a list to
that of the next, and two of them share a list just when they are alike. -/
structure PartitionsInOrder {n : ℕ} (alike : Fin n → Fin n → Prop) (lists : List (List (Fin n))) : Prop where
  ne_nil : ∀ places ∈ lists, places ≠ []
  perm : lists.flatten.Perm (List.finRange n)
  ascending : ∀ places ∈ lists, places.Pairwise (· < ·)
  firsts : (lists.filterMap List.head?).Pairwise (· < ·)
  together : ∀ i j, (∃ places ∈ lists, i ∈ places ∧ j ∈ places) ↔ alike i j

theorem PartitionsInOrder.congr {n : ℕ} {alike alike' : Fin n → Fin n → Prop} {lists : List (List (Fin n))}
    (h : PartitionsInOrder alike lists) (hiff : ∀ i j, alike i j ↔ alike' i j) : PartitionsInOrder alike' lists :=
  { h with together := fun i j => (h.together i j).trans (hiff i j) }

theorem partitionsInOrder_classify {n : ℕ} (key : Fin n → String) :
    PartitionsInOrder (fun i j => key i = key j) (classify key (List.finRange n)) where
  ne_nil _ h := ne_nil_of_mem_classify h
  perm := flatten_classify_perm key _
  ascending _ h := (List.pairwise_lt_finRange n).sublist (sublist_of_mem_classify h)
  firsts := (List.pairwise_lt_finRange n).sublist (heads_classify_sublist key _)
  together i j := exists_mem_classify_iff (List.mem_finRange i) (List.mem_finRange j)

namespace Row

/-- The texts at some places of a row, joined with unit separators. -/
def joinedTexts (row : Row) (indices : List ℕ) : List Char := ['\x1f'].intercalate (indices.map row.textAt)

theorem groupKey_eq_iff {r s : Row} {indices : List ℕ} :
    r.groupKey indices = s.groupKey indices ↔ r.joinedTexts indices = s.joinedTexts indices := by
  rw [← String.toList_inj, toList_groupKey, toList_groupKey, joinedTexts, joinedTexts]

/-- Joined texts without separators in them come apart in one way. -/
theorem joinedTexts_eq_iff {r s : Row} {indices : List ℕ} (hr : ∀ i ∈ indices, '\x1f' ∉ r.textAt i)
    (hs : ∀ i ∈ indices, '\x1f' ∉ s.textAt i) :
    r.joinedTexts indices = s.joinedTexts indices ↔ ∀ i ∈ indices, r.textAt i = s.textAt i := by
  constructor
  · intro h
    refine eq_of_intercalate_eq (fun i hi => ?_) h
    rw [List.count_eq_zero.2 (hr i hi), List.count_eq_zero.2 (hs i hi)]
  · intro h
    rw [joinedTexts, joinedTexts, List.map_congr_left h]

end Row

namespace Transformation

/-- The places in a row that the grouping looks at. -/
def indices (t : Transformation) : List ℕ := t.group.map Attribute.index

/-- The groups are the rows at the places of a partition in order. -/
theorem groups_partition (t : Transformation) (rows : List Row) :
    ∃ lists : List (List (Fin rows.length)),
      t.groups rows = lists.map (List.map rows.get) ∧
      PartitionsInOrder (fun i j => (rows.get i).joinedTexts t.indices = (rows.get j).joinedTexts t.indices) lists ∧
      ((∀ row ∈ rows, ∀ k ∈ t.indices, '\x1f' ∉ row.textAt k) →
        PartitionsInOrder (fun i j => ∀ k ∈ t.indices, (rows.get i).textAt k = (rows.get j).textAt k) lists) := by
  have hgroups : t.groups rows =
      (classify (fun i => (rows.get i).groupKey t.indices) (List.finRange rows.length)).map (List.map rows.get) := by
    have hrows : (List.finRange rows.length).map rows.get = rows := List.map_get_finRange rows
    conv_lhs => rw [groups, ← hrows]
    exact classify_map ..
  have hjoined := (partitionsInOrder_classify fun i => (rows.get i).groupKey t.indices).congr
    fun i j => Row.groupKey_eq_iff
  refine ⟨_, hgroups, hjoined, fun hclean => hjoined.congr fun i j => ?_⟩
  exact Row.joinedTexts_eq_iff (hclean _ (List.get_mem rows i)) (hclean _ (List.get_mem rows j))

/-- Rows that fit no kind are grouped as well. -/
def shortRows : List Row := [course "math" "310" .zero, [.text "math"], [], [.text "math", .text ""]]

/-- A cell that a row lacks counts as an empty text. -/
theorem groups_partition_shortRows :
    (∀ row ∈ shortRows, ∀ k ∈ byCourse.indices, '\x1f' ∉ row.textAt k) ∧
      ∃ lists : List (List (Fin shortRows.length)),
        byCourse.groups shortRows = lists.map (List.map shortRows.get) ∧
        (∃ places ∈ lists, ⟨1, by decide⟩ ∈ places ∧ ⟨3, by decide⟩ ∈ places) ∧
        ¬∃ places ∈ lists, ⟨0, by decide⟩ ∈ places ∧ ⟨1, by decide⟩ ∈ places := by
  have hclean : ∀ row ∈ shortRows, ∀ k ∈ byCourse.indices, '\x1f' ∉ row.textAt k := by decide +kernel
  obtain ⟨lists, hgroups, -, htexts⟩ := groups_partition byCourse shortRows
  refine ⟨hclean, lists, hgroups, ?_, ?_⟩
  · rw [(htexts hclean).together]
    decide +kernel
  · rw [(htexts hclean).together]
    decide +kernel

end Transformation

end CampusQuery
