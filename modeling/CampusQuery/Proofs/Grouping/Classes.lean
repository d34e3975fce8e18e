import CampusQuery.Grouping
import Mathlib.Tactic

/-! Classes of a list under a key. Main statements: put together, the classes are a rearrangement of the list, each of
them has its items in the order of the list, so have their first items, and two items share a class just when they
share a key. -/

namespace CampusQuery

variable {α β : Type} {key : α → String} {xs : List α} {g : List α}

theorem classify_nil (key : α → String) : classify key [] = [] := by
  rw [classify_eq, List.map_nil, List.eraseDups_nil, List.map_nil]

/-- The first class is that of the first item, and the others are those of what it leaves of the list. -/
theorem classify_cons (key : α → String) (x : α) (xs : List α) :
    classify key (x :: xs) =
      (x :: xs.filter (key · == key x)) :: classify key (xs.filter (key · != key x)) := by
  have hkeys : (xs.map key).filter (fun k => !k == key x) = (xs.filter (key · != key x)).map key := by
    rw [List.filter_map]
    rfl
  have hfirst : (x :: xs).filter (key · == key x) = x :: xs.filter (key · == key x) :=
    List.filter_cons_of_pos (beq_self_eq_true (key x))
  rw [classify_eq, classify_eq, List.map_cons, List.eraseDups_cons, List.map_cons, hkeys, hfirst]
  refine congrArg _ (List.map_congr_left fun k hk => ?_)
  obtain ⟨y, hy, rfl⟩ := List.mem_map.1 (List.mem_eraseDups.1 hk)
  have hne : key y ≠ key x := by simpa using (List.mem_filter.1 hy).2
  rw [List.filter_cons_of_neg (by simpa using hne.symm), List.filter_filter]
  refine List.filter_congr fun z _ => ?_
  by_cases hz : key z = key y
  · simp [hz, hne]
  · simp [hz]

/-- To show something of all lists, it is enough to show it of a list when it holds of what its first class leaves. -/
theorem classify_induction {P : List α → Prop} (key : α → String) (nil : P [])
    (cons : ∀ x xs, P (xs.filter (key · != key x)) → P (x :: xs)) (xs : List α) : P xs := by
  induction hn : xs.length using Nat.strong_induction_on generalizing xs with
  | _ n ih =>
    cases xs with
    | nil => exact nil
    | cons x xs =>
      have hlt : (xs.filter (key · != key x)).length < n :=
        hn ▸ Nat.lt_succ_of_le (List.length_filter_le ..)
      exact cons x xs (ih _ hlt _ rfl)

theorem classify_map (key : β → String) (f : α → β) (xs : List α) :
    classify key (xs.map f) = (classify (key ∘ f) xs).map (List.map f) := by
  rw [classify_eq, classify_eq, List.map_map, List.map_map]
  refine List.map_congr_left fun k _ => ?_
  rw [List.filter_map]
  rfl

theorem ne_nil_of_mem_classify (h : g ∈ classify key xs) : g ≠ [] := by
  induction xs using classify_induction key with
  | nil =>
    rw [classify_nil] at h
    cases h
  | cons x xs ih =>
    rw [classify_cons] at h
    rcases List.mem_cons.1 h with rfl | h
    · exact List.cons_ne_nil _ _
    · exact ih h

theorem sublist_of_mem_classify (h : g ∈ classify key xs) : g.Sublist xs := by
  rw [classify_eq] at h
  obtain ⟨k, -, rfl⟩ := List.mem_map.1 h
  exact List.filter_sublist

theorem flatten_classify_perm (key : α → String) (xs : List α) : (classify key xs).flatten.Perm xs := by
  induction xs using classify_induction key with
  | nil => rw [classify_nil, List.flatten_nil]
  | cons x xs ih =>
    rw [classify_cons, List.flatten_cons, List.cons_append, List.perm_cons]
    exact (ih.append_left _).trans (List.filter_append_perm (key · == key x) xs)

theorem heads_classify_sublist (key : α → String) (xs : List α) :
    ((classify key xs).filterMap List.head?).Sublist xs := by
  induction xs using classify_induction key with
  | nil => rw [classify_nil, List.filterMap_nil]
  | cons x xs ih =>
    rw [classify_cons, List.filterMap_cons_some (f := List.head?) rfl]
    exact (ih.trans List.filter_sublist).cons_cons x

theorem exists_mem_classify_iff {x y : α} (hx : x ∈ xs) (hy : y ∈ xs) :
    (∃ g ∈ classify key xs, x ∈ g ∧ y ∈ g) ↔ key x = key y := by
  simp only [classify_eq, List.mem_map, List.mem_eraseDups]
  constructor
  · rintro ⟨g, ⟨k, -, rfl⟩, hxg, hyg⟩
    rw [List.mem_filter, beq_iff_eq] at hxg hyg
    exact hxg.2.trans hyg.2.symm
  · intro h
    refine ⟨_, ⟨_, ⟨x, hx, rfl⟩, rfl⟩, ?_, ?_⟩
    · simpa using hx
    · simpa [h] using hy

end CampusQuery
