import CampusQuery.Proofs.Filter.Meaning
import CampusQuery.Proofs.Transformation.Reading

/-! The types of the fields that a filter reads. Main statement: at any depth of a filter that is read off
a tree, comparisons are of numbers and matches of texts, in fields of the dataset. -/

namespace CampusQuery.Filter

variable {scope : Scope}

/-- A filter on the fields of a scope, with an operand wherever there may be several. -/
inductive WellTyped (scope : Scope) : Filter → Prop
  | all {fs : List Filter} : fs ≠ [] → (∀ f ∈ fs, WellTyped scope f) → WellTyped scope (.all fs)
  | any {fs : List Filter} : fs ≠ [] → (∀ f ∈ fs, WellTyped scope f) → WellTyped scope (.any fs)
  | not {f : Filter} : WellTyped scope f → WellTyped scope (.not f)
  | compare {c : Comparison} {a : Attribute} {x : Double} : a.LiesIn scope → a.type = .number →
    WellTyped scope (.compare c a x)
  | like {a : Attribute} {p : Pattern} : a.LiesIn scope → a.type = .text → WellTyped scope (.like a p)

theorem mem_attributesOfAll_iff {a : Attribute} {fs : List Filter} :
    a ∈ attributesOfAll fs ↔ ∃ f ∈ fs, a ∈ f.attributes := by
  induction fs with
  | nil => simp [attributesOfAll]
  | cons f fs ih => rw [attributesOfAll, List.mem_append, ih, List.exists_mem_cons_iff]

theorem WellTyped.liesIn {f : Filter} (h : f.WellTyped scope) : ∀ a ∈ f.attributes, a.LiesIn scope := by
  induction h with
  | all _ _ ih | any _ _ ih =>
    intro a ha
    rw [attributes] at ha
    obtain ⟨f, hf, ha⟩ := mem_attributesOfAll_iff.1 ha
    exact ih f hf a ha
  | not _ ih =>
    intro a ha
    rw [attributes] at ha
    exact ih a ha
  | compare h _ | like h _ =>
    intro a ha
    rw [attributes, List.mem_singleton] at ha
    exact ha ▸ h

theorem keptByReading_wellTyped (hid : IsId scope.datasetId) :
    KeptByReading scope fun _ f => f.WellTyped scope where
  and hne h := .all (ne_nil_of_forall₂ h hne) (forall_of_forall₂ h.flip)
  or hne h := .any (ne_nil_of_forall₂ h hne) (forall_of_forall₂ h.flip)
  not h := .not h
  is hof hds htype _ := .like ⟨hof, hds, hds ▸ hid⟩ htype
  compare hof hds htype := .compare ⟨hof, hds, hds ▸ hid⟩ htype

theorem wellTyped_of_ofWhere (hid : IsId scope.datasetId) {t : Tree} {f : Filter}
    (h : ofWhere scope t = .ok (some f)) : f.WellTyped scope :=
  (keptByReading_wellTyped hid).of_ofTree hid (ofWhere_eq_some_iff.1 h).2

end CampusQuery.Filter
