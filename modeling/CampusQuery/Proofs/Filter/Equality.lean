import CampusQuery.Proofs.Filter.Meaning
import CampusQuery.Proofs.Tree.Equality

/-! Filters that do the same. Main statement: of two equal trees, if one is read as a filter then so is the
other, and as one that accepts the same rows. -/

namespace CampusQuery

/-- Nothing compares differently with one zero than with the other, or with one not-a-number than with
another. -/
theorem Comparison.holds_eq_of_same (c : Comparison) {x y : Double} (h : x.same y = true) (value : Double) :
    c.holds value x = c.holds value y := by
  unfold Double.same Double.eq at h
  rw [Bool.or_eq_true, Bool.and_eq_true, Bool.and_eq_true, Bool.and_eq_true, Bool.not_eq_true',
    Bool.not_eq_true', decide_eq_true_eq] at h
  rcases h with ⟨hx, hy⟩ | ⟨⟨hx, hy⟩, hposition⟩
  · cases c <;> simp [holds, Double.lt, Double.eq, hx, hy]
  · cases c <;> simp [holds, Double.lt, Double.eq, hx, hy, hposition]

namespace Filter

variable {scope : Scope}

/-- The filters accept the same rows. -/
def Agrees (f g : Filter) : Prop := ∀ row : Row, f.accepts row = g.accepts row

theorem Agrees.refl (f : Filter) : f.Agrees f := fun _ => rfl

theorem Agrees.not {f g : Filter} (h : f.Agrees g) : (Filter.not f).Agrees (.not g) :=
  fun row => congrArg Bool.not (h row)

theorem agrees_all {fs gs : List Filter} (h : List.Forall₂ Agrees fs gs) : (all fs).Agrees (all gs) := by
  intro row
  show allAccept fs row = allAccept gs row
  induction h with
  | nil => rfl
  | cons hfirst _ ih => rw [allAccept, allAccept, hfirst row, ih]

theorem agrees_any {fs gs : List Filter} (h : List.Forall₂ Agrees fs gs) : (any fs).Agrees (any gs) := by
  intro row
  show anyAccepts fs row = anyAccepts gs row
  induction h with
  | nil => rfl
  | cons hfirst _ ih => rw [anyAccepts, anyAccepts, hfirst row, ih]

theorem agrees_compare {c : Comparison} {a : Attribute} {x y : Double} (h : x.same y = true) :
    (compare c a x).Agrees (compare c a y) := by
  intro row
  unfold accepts
  congr 1
  funext value
  exact c.holds_eq_of_same h value

/-- Whatever is equal to the tree is read as the filter, or as one that agrees with it. -/
def ReadAlike (scope : Scope) (t : Tree) (f : Filter) : Prop :=
  ∀ u : Tree, t.Matches u → ∃ g, Reads scope u g ∧ f.Agrees g

theorem exists_operands {ts us : List Tree} {fs : List Filter} (h : List.Forall₂ (ReadAlike scope) ts fs)
    (hmatches : List.Forall₂ Tree.Matches ts us) :
    ∃ gs, List.Forall₂ (Reads scope) us gs ∧ List.Forall₂ Agrees fs gs := by
  induction h generalizing us with
  | nil =>
    obtain rfl := List.forall₂_nil_left_iff.1 hmatches
    exact ⟨[], .nil, .nil⟩
  | cons hfirst _ ih =>
    obtain ⟨u, us, hu, hus, rfl⟩ := List.forall₂_cons_left_iff.1 hmatches
    obtain ⟨g, hg, hagrees⟩ := hfirst u hu
    obtain ⟨gs, hgs, hall⟩ := ih hus
    exact ⟨g :: gs, .cons hg hgs, .cons hagrees hall⟩

theorem readAlike_operands {key : String} {ts : List Tree} {fs : List Filter} {combine : List Filter → Filter}
    (hreads : ∀ {us gs}, us ≠ [] → List.Forall₂ (Reads scope) us gs →
      Reads scope (.object [(key, .array us)]) (combine gs))
    (hagrees : ∀ {gs}, List.Forall₂ Agrees fs gs → (combine fs).Agrees (combine gs)) (hne : ts ≠ [])
    (h : List.Forall₂ (ReadAlike scope) ts fs) :
    ReadAlike scope (.object [(key, .array ts)]) (combine fs) := by
  intro u hmatches
  obtain ⟨body, rfl, hbody⟩ := hmatches.of_single
  obtain ⟨us, rfl, hitems⟩ := hbody.of_array
  obtain ⟨gs, hgs, hall⟩ := exists_operands h hitems
  exact ⟨combine gs, hreads (ne_nil_of_forall₂ hitems hne) hgs, hagrees hall⟩

theorem keptByReading_readAlike (hid : IsId scope.datasetId) : KeptByReading scope (ReadAlike scope) where
  and hne h := readAlike_operands (keptByReading_reads hid).and agrees_all hne h
  or hne h := readAlike_operands (keptByReading_reads hid).or agrees_any hne h
  not h u hmatches := by
    obtain ⟨t, rfl, ht⟩ := hmatches.of_single
    obtain ⟨g, hg, hagrees⟩ := h t ht
    exact ⟨.not g, (keptByReading_reads hid).not hg, hagrees.not⟩
  is {a s p} hof hds htype hp u hmatches := by
    obtain rfl := Tree.rigid_single _ (Tree.rigid_single _ (Tree.rigid_text s)) u hmatches
    exact ⟨.like a p, (keptByReading_reads hid).is hof hds htype hp, .refl _⟩
  compare {c a x} hof hds htype u hmatches := by
    obtain ⟨body, rfl, hbody⟩ := hmatches.of_single
    obtain ⟨value, rfl, hvalue⟩ := hbody.of_single
    obtain ⟨y, rfl, hsame⟩ := hvalue.of_number
    exact ⟨.compare c a y, (keptByReading_reads hid).compare hof hds htype, agrees_compare hsame⟩

/-- Equal trees are both empty, or read as filters that accept the same rows. -/
theorem ofWhere_of_matches (hid : IsId scope.datasetId) {t u : Tree} (hmatches : t.Matches u)
    {f : Option Filter} (h : ofWhere scope t = .ok f) :
    ∃ g, ofWhere scope u = .ok g ∧ Option.Rel Agrees f g := by
  rcases f with _ | f
  · obtain rfl := ofWhere_eq_none_iff.1 h
    rw [Tree.rigid_empty u hmatches]
    exact ⟨none, h, .none⟩
  · obtain ⟨hne, hread⟩ := ofWhere_eq_some_iff.1 h
    obtain ⟨g, hg, hagrees⟩ := (keptByReading_readAlike hid).of_ofTree hid hread u hmatches
    refine ⟨some g, ofWhere_eq_some_iff.2 ⟨?_, hg _⟩, .some hagrees⟩
    rintro rfl
    exact hne (Tree.rigid_empty t hmatches.symm)

end Filter

end CampusQuery
