import CampusQuery.Proofs.Grammar.Rules
import CampusQuery.Proofs.Tree.Equality

/-! Equal trees pass the same checks. Main statement: no table of rules tells two trees apart that differ
in the order of entries. -/

namespace CampusQuery

namespace Tree.Matches

variable {t u : Tree}

theorem isText_iff (h : t.Matches u) : (∃ s, t = text s) ↔ ∃ s, u = text s := by
  have hsame := h.same
  cases t <;> cases u <;> simp [Tree.same] at hsame ⊢

theorem isArray_iff (h : t.Matches u) : (∃ items, t = array items) ↔ ∃ items, u = array items := by
  have hsame := h.same
  cases t <;> cases u <;> simp [Tree.same] at hsame ⊢

theorem isObject_iff (h : t.Matches u) : (∃ entries, t = object entries) ↔ ∃ entries, u = object entries := by
  have hsame := h.same
  cases t <;> cases u <;> simp [Tree.same] at hsame ⊢

end Tree.Matches

namespace Grammar

/-- A check that does not tell equal trees apart. -/
def Respects (sub : String → Tree → Except Fault Unit) : Prop :=
  ∀ key, ∀ t u : Tree, t.Matches u → (sub key t = .ok () ↔ sub key u = .ok ())

variable {sub : String → Tree → Except Fault Unit} {r : Rule}

theorem checkedCount_eq_of_perm {keys names : List String} (h : keys.Perm names) :
    r.checkedCount keys = r.checkedCount names := by
  unfold Rule.checkedCount
  simp only [h.mem_iff, (h.filter _).length_eq]

theorem checkEntries_iff_of_matches (hsub : Respects sub) {es fs : Entries Tree}
    (h : (Tree.object es).Matches (.object fs)) :
    r.checkEntries sub es = .ok () ↔ r.checkEntries sub fs = .ok () := by
  have hlength : es.length = fs.length := (Tree.same_object_iff.1 h.same).1
  rw [checkEntries_iff_counted, checkEntries_iff_counted]
  refine and_congr ?_ (and_congr ?_ (and_congr ?_ (and_congr ?_ (and_congr ?_ ?_))))
  · rw [← List.length_pos_iff, hlength, List.length_pos_iff]
  · rw [hlength]
  · exact forall₂_congr fun key _ => Tree.Matches.exists_lookup_iff (hsub key) h key
  · exact forall₂_congr fun key _ => Tree.Matches.forall_lookup_iff (hsub key) h key
  · refine forall₂_congr fun rule _ => ?_
    have hown : ∀ key, ∀ t u : Tree, t.Matches u →
        ((r.declares key = false → isApplyName key = true ∧ sub rule t = .ok ()) ↔
        (r.declares key = false → isApplyName key = true ∧ sub rule u = .ok ())) := by
      intro key t u hmatches
      rw [hsub rule t u hmatches]
    exact Tree.Matches.forall_entry_iff hown h
  · rw [hlength, checkedCount_eq_of_perm h.keys_perm]

theorem expand_of_not_text {t : Tree} (h : ¬∃ s, t = .text s) : r.expand t = t := by
  cases t with
  | text s => exact absurd ⟨s, rfl⟩ h
  | _ => rfl

theorem check_iff_of_matches (hsub : Respects sub) {t u : Tree} (h : t.Matches u) :
    r.check sub t = .ok () ↔ r.check sub u = .ok () := by
  by_cases htext : ∃ s, t = .text s
  · obtain ⟨s, rfl⟩ := htext
    rw [h.of_text]
  · have ht : r.expand t = t := expand_of_not_text htext
    have hu : r.expand u = u := expand_of_not_text (mt h.isText_iff.2 htext)
    cases hshape : r.shape with
    | text => rw [check_text_iff hshape, check_text_iff hshape, ht, hu, h.isText_iff]
    | array =>
      rw [check_array_iff hshape, check_array_iff hshape, ht, hu]
      by_cases harray : ∃ items, t = .array items
      · obtain ⟨xs, rfl⟩ := harray
        obtain ⟨ys, rfl⟩ := h.isArray_iff.1 ⟨xs, rfl⟩
        have hempty : xs ≠ [] ↔ ys ≠ [] := by
          rw [← List.length_pos_iff, h.items.length_eq, List.length_pos_iff]
        simp only [Tree.array.injEq, exists_eq_left', hempty]
        refine and_congr_right fun _ => forall₂_congr fun rule _ => ?_
        exact Tree.Matches.forall_item_iff (hsub rule) h
      · have harray' := mt h.isArray_iff.2 harray
        simp only [not_exists] at harray harray'
        simp [harray, harray']
    | object =>
      rw [check_object_iff hshape, check_object_iff hshape, ht, hu]
      by_cases hobject : ∃ entries, t = .object entries
      · obtain ⟨es, rfl⟩ := hobject
        obtain ⟨fs, rfl⟩ := h.isObject_iff.1 ⟨es, rfl⟩
        simp only [Tree.object.injEq, exists_eq_left']
        exact checkEntries_iff_of_matches hsub h
      · have hobject' := mt h.isObject_iff.2 hobject
        simp only [not_exists] at hobject hobject'
        simp [hobject, hobject']

theorem respects_checkBy (rules : List Rule) : Respects (checkBy rules) := by
  induction rules with
  | nil => exact fun _ _ _ _ => Iff.rfl
  | cons r rest ih =>
    intro key t u h
    rw [checkBy, checkBy]
    split
    · exact check_iff_of_matches ih h
    · exact ih key t u h

end Grammar

end CampusQuery
