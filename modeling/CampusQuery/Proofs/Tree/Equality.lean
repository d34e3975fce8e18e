import CampusQuery.Proofs.Tree.WellFormed

/-! What equal trees have in common. Main statements: equality of well-formed trees is symmetric, and to a
tree whose objects have one name each and that holds texts only, no other tree is equal. -/

namespace CampusQuery

theorem Double.same_comm (x y : Double) : x.same y = y.same x := by
  unfold Double.same Double.eq
  rw [Bool.and_comm x.isNaN, Bool.and_comm (!x.isNaN), decide_eq_decide.2 (eq_comm (a := x.position))]

namespace Tree

@[elab_as_elim]
theorem induction {motive : Tree → Prop} (null : motive null) (bool : ∀ b, motive (bool b))
    (number : ∀ x, motive (number x)) (text : ∀ s, motive (text s))
    (array : ∀ items, (∀ t ∈ items, motive t) → motive (array items))
    (object : ∀ entries, (∀ e ∈ entries, motive e.2) → motive (object entries)) : ∀ t, motive t
  | .null => null
  | .bool b => bool b
  | .number x => number x
  | .text s => text s
  | .array items => array items fun t _ => induction null bool number text array object t
  | .object entries => object entries fun e _ => induction null bool number text array object e.2
termination_by t => sizeOf t
decreasing_by
  all_goals simp_wf
  · have := List.sizeOf_lt_of_mem ‹_ ∈ items›
    omega
  · have := List.sizeOf_lt_of_mem ‹_ ∈ entries›
    have : sizeOf e = 1 + sizeOf e.1 + sizeOf e.2 := rfl
    omega

namespace Matches

variable {t u : Tree}

theorem of_text {s : String} (h : (text s).Matches u) : u = text s := by
  have hsame := h.same
  cases u with
  | text s' => rw [Tree.same, beq_iff_eq] at hsame; rw [hsame]
  | _ => simp [Tree.same] at hsame

theorem of_number {x : Double} (h : (number x).Matches u) : ∃ y, u = number y ∧ x.same y = true := by
  have hsame := h.same
  cases u with
  | number y => exact ⟨y, rfl, by rwa [Tree.same] at hsame⟩
  | _ => simp [Tree.same] at hsame

theorem of_array {items : List Tree} (h : (array items).Matches u) :
    ∃ others, u = array others ∧ List.Forall₂ Matches items others := by
  have hsame := h.same
  cases u with
  | array others => exact ⟨others, rfl, h.items⟩
  | _ => simp [Tree.same] at hsame

theorem of_object {entries : Entries Tree} (h : (object entries).Matches u) :
    ∃ others : Entries Tree, u = object others ∧ (object entries).Matches (object others) := by
  have hsame := h.same
  cases u with
  | object others => exact ⟨others, rfl, h⟩
  | _ => simp [Tree.same] at hsame

/-- What stands under a name stands under it in an equal object. -/
theorem exists_lookup {entries others : Entries Tree} (h : (object entries).Matches (object others))
    {key : String} (ht : entries.lookup key = some t) : ∃ u, others.lookup key = some u ∧ t.Matches u := by
  have hrel := h.lookup key
  rw [ht] at hrel
  generalize others.lookup key = found at hrel ⊢
  cases hrel with
  | some hmatches => exact ⟨_, rfl, hmatches⟩

theorem lookup_eq_none {entries others : Entries Tree} (h : (object entries).Matches (object others))
    {key : String} (hnone : entries.lookup key = none) : others.lookup key = none := by
  have hrel := h.lookup key
  rw [hnone] at hrel
  generalize others.lookup key = found at hrel ⊢
  cases hrel
  rfl

theorem of_single {key : String} (h : (object [(key, t)]).Matches u) :
    ∃ u', u = object [(key, u')] ∧ t.Matches u' := by
  obtain ⟨others, rfl, h⟩ := h.of_object
  obtain ⟨⟨key', u'⟩, rfl⟩ := List.length_eq_one_iff.1 (same_object_iff.1 h.same).1.symm
  obtain ⟨w, hw, hmatches⟩ := h.exists_lookup (Entries.lookup_cons key key t [] ▸ if_pos rfl)
  rw [Entries.lookup_cons] at hw
  split at hw
  · next hkey => exact ⟨u', by rw [hkey], Option.some.inj hw ▸ hmatches⟩
  · cases hw

theorem symm (h : t.Matches u) : u.Matches t := by
  refine ⟨h.right, h.left, ?_⟩
  induction t using Tree.induction generalizing u with
  | null | bool b =>
    have hsame := h.same
    cases u <;> simp_all [Tree.same]
  | number x =>
    obtain ⟨y, rfl, hsame⟩ := h.of_number
    rwa [Tree.same, Double.same_comm]
  | text s =>
    rw [h.of_text, Tree.same, beq_self_eq_true]
  | array items ih =>
    obtain ⟨others, rfl, hitems⟩ := h.of_array
    rw [same_array_iff]
    clear h
    induction hitems with
    | nil => exact .nil
    | cons hmatches _ ihrest =>
      obtain ⟨hhead, hrest⟩ := List.forall_mem_cons.1 ih
      exact .cons (hhead hmatches) (ihrest hrest)
  | object entries ih =>
    obtain ⟨others, rfl, h⟩ := h.of_object
    refine same_object_iff.2 ⟨(same_object_iff.1 h.same).1.symm, fun e he => ?_⟩
    -- The names of the two are the same, so that there is an entry to apply the hypothesis to.
    have hkey : e.1 ∈ Entries.keys entries := h.keys_perm.mem_iff.2 (List.mem_map_of_mem he)
    obtain ⟨t, ht⟩ := Entries.exists_lookup hkey
    obtain ⟨u, hu, hmatches⟩ := h.exists_lookup ht
    have hvalue : u = e.2 := by
      have hnodup := h.right.nodup_keys
      exact Option.some.inj (hu.symm.trans (Entries.lookup_of_mem hnodup he))
    exact ⟨t, ht, hvalue ▸ ih _ (Entries.mem_of_lookup ht) hmatches⟩

end Matches

/-- No other tree is equal to the tree. -/
def Rigid (t : Tree) : Prop := ∀ u : Tree, t.Matches u → u = t

theorem rigid_text (s : String) : (text s).Rigid := fun _ h => h.of_text

theorem rigid_array {items : List Tree} (h : ∀ t ∈ items, t.Rigid) : (array items).Rigid := by
  intro u hmatches
  obtain ⟨others, rfl, hitems⟩ := hmatches.of_array
  clear hmatches
  induction hitems with
  | nil => rfl
  | cons hfirst _ ih =>
    obtain ⟨hhead, hrest⟩ := List.forall_mem_cons.1 h
    rw [hhead _ hfirst, array.inj (ih hrest)]

theorem rigid_map {α : Type} {f : α → Tree} (h : ∀ a, (f a).Rigid) (xs : List α) :
    (array (xs.map f)).Rigid :=
  rigid_array (List.forall_mem_map.2 fun a _ => h a)

theorem rigid_empty : (object []).Rigid := by
  intro u hmatches
  obtain ⟨others, rfl, h⟩ := hmatches.of_object
  rw [List.length_eq_zero_iff.1 (same_object_iff.1 h.same).1.symm]

theorem rigid_single (key : String) {t : Tree} (h : t.Rigid) : (object [(key, t)]).Rigid := by
  intro u hmatches
  obtain ⟨u', rfl, hvalue⟩ := hmatches.of_single
  rw [h u' hvalue]

theorem Matches.lookup_eq_of_rigid {entries others : Entries Tree}
    (h : (object entries).Matches (object others)) {key : String} {t : Tree} (ht : entries.lookup key = some t)
    (hrigid : t.Rigid) : others.lookup key = some t := by
  obtain ⟨u, hu, hmatches⟩ := h.exists_lookup ht
  rw [hu, hrigid u hmatches]

end Tree

end CampusQuery
