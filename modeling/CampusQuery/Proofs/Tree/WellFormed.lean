import CampusQuery.Proofs.Entries
import CampusQuery.Tree.Basic

/-! Trees in which every object has each of its names once, as trees that are built by insertion do. Main
statement: two such objects are equal only if under each name both have equal values or both have
none. -/

namespace CampusQuery

namespace Entries

variable {α : Type}

theorem mem_iff_lookup {es : Entries α} (h : es.keys.Nodup) {e : String × α} :
    e ∈ es ↔ es.lookup e.1 = some e.2 :=
  ⟨lookup_of_mem h, mem_of_lookup⟩

/-- Entries are others in some order just if they hold those under their names and have no further
names. -/
theorem perm_iff_lookup {es fs : Entries α} (hes : es.keys.Nodup) (hfs : fs.keys.Nodup) :
    es.Perm fs ↔ (∀ e ∈ fs, es.lookup e.1 = some e.2) ∧ ∀ e ∈ es, e.1 ∈ fs.keys := by
  constructor
  · intro h
    refine ⟨fun e he => ?_, fun e he => List.mem_map_of_mem (h.mem_iff.1 he)⟩
    exact (mem_iff_lookup hes).1 (h.mem_iff.2 he)
  · intro ⟨hlookup, hkeys⟩
    rw [List.perm_ext_iff_of_nodup (List.Nodup.of_map _ hes) (List.Nodup.of_map _ hfs)]
    intro e
    constructor
    · intro he
      obtain ⟨f, hf, hname⟩ := List.mem_map.1 (hkeys e he)
      have hvalue : es.lookup e.1 = some f.2 := hname ▸ hlookup f hf
      rw [(mem_iff_lookup hes).1 he] at hvalue
      rwa [Prod.ext hname (Option.some.inj hvalue).symm] at hf
    · intro he
      exact (mem_iff_lookup hes).2 (hlookup e he)

end Entries

namespace Tree

mutual

def WellFormed : Tree → Prop
  | array items => AllWellFormed items
  | object entries => (Entries.keys entries).Nodup ∧ EntriesWellFormed entries
  | _ => True

def AllWellFormed : List Tree → Prop
  | [] => True
  | t :: ts => t.WellFormed ∧ AllWellFormed ts

def EntriesWellFormed : List (String × Tree) → Prop
  | [] => True
  | (_, t) :: rest => t.WellFormed ∧ EntriesWellFormed rest

end

@[simp] theorem wellFormed_text (s : String) : (text s).WellFormed := by
  simp [WellFormed]

@[simp] theorem wellFormed_number (x : Double) : (number x).WellFormed := by
  simp [WellFormed]

@[simp] theorem wellFormed_array_iff {items : List Tree} :
    (array items).WellFormed ↔ ∀ t ∈ items, t.WellFormed := by
  rw [WellFormed]
  induction items with
  | nil => simp [AllWellFormed]
  | cons t ts ih => rw [AllWellFormed, ih, List.forall_mem_cons]

@[simp] theorem wellFormed_object_iff {entries : Entries Tree} :
    (object entries).WellFormed ↔ entries.keys.Nodup ∧ ∀ e ∈ entries, e.2.WellFormed := by
  rw [WellFormed]
  refine and_congr Iff.rfl ?_
  induction entries with
  | nil => simp [EntriesWellFormed]
  | cons e rest ih =>
    obtain ⟨key, t⟩ := e
    rw [EntriesWellFormed, ih, List.forall_mem_cons]

theorem WellFormed.nodup_keys {entries : Entries Tree} (h : (object entries).WellFormed) :
    entries.keys.Nodup :=
  (wellFormed_object_iff.1 h).1

theorem WellFormed.of_lookup {entries : Entries Tree} (h : (object entries).WellFormed) {key : String}
    {t : Tree} (ht : entries.lookup key = some t) : t.WellFormed :=
  (wellFormed_object_iff.1 h).2 _ (Entries.mem_of_lookup ht)

/-- Well-formed trees that are equal. -/
structure Matches (t u : Tree) : Prop where
  left : t.WellFormed
  right : u.WellFormed
  same : t.same u = true

theorem same_array_iff {xs ys : List Tree} :
    (array xs).same (array ys) = true ↔ List.Forall₂ (fun x y => x.same y = true) xs ys := by
  rw [Tree.same]
  induction xs generalizing ys with
  | nil => cases ys <;> simp [sameItems]
  | cons x xs ih =>
    cases ys with
    | nil => simp [sameItems]
    | cons y ys => rw [sameItems, Bool.and_eq_true, ih, List.forall₂_cons]

theorem same_object_iff {es fs : Entries Tree} :
    (object es).same (object fs) = true ↔
      es.length = fs.length ∧ ∀ e ∈ es, ∃ y, fs.lookup e.1 = some y ∧ e.2.same y = true := by
  rw [Tree.same, Bool.and_eq_true, beq_iff_eq]
  refine and_congr Iff.rfl ?_
  induction es with
  | nil => simp [sameEntries]
  | cons e rest ih =>
    obtain ⟨key, x⟩ := e
    rw [sameEntries, Bool.and_eq_true, ih, List.forall_mem_cons]
    refine and_congr_left fun _ => ?_
    cases fs.lookup key <;> simp

theorem Matches.items {xs ys : List Tree} (h : (array xs).Matches (array ys)) :
    List.Forall₂ Matches xs ys := by
  have hxs := wellFormed_array_iff.1 h.left
  have hys := wellFormed_array_iff.1 h.right
  have hall := same_array_iff.1 h.same
  clear h
  induction hall with
  | nil => exact .nil
  | cons hsame _ ih =>
    rw [List.forall_mem_cons] at hxs hys
    exact .cons ⟨hxs.1, hys.1, hsame⟩ (ih hxs.2 hys.2)

theorem Matches.keys_perm {es fs : Entries Tree} (h : (object es).Matches (object fs)) :
    es.keys.Perm fs.keys := by
  obtain ⟨hlength, hentries⟩ := same_object_iff.1 h.same
  have hsubset : es.keys ⊆ fs.keys := by
    intro key hkey
    obtain ⟨e, he, rfl⟩ := List.mem_map.1 hkey
    obtain ⟨y, hy, -⟩ := hentries e he
    exact Entries.mem_keys_of_lookup hy
  have hsub := List.subperm_of_subset h.left.nodup_keys hsubset
  apply hsub.perm_of_length_le
  rw [Entries.length_keys, Entries.length_keys, hlength]

theorem Matches.lookup {es fs : Entries Tree} (h : (object es).Matches (object fs)) (key : String) :
    Option.Rel Matches (es.lookup key) (fs.lookup key) := by
  cases hx : es.lookup key with
  | some x =>
    obtain ⟨y, hy, hsame⟩ := (same_object_iff.1 h.same).2 _ (Entries.mem_of_lookup hx)
    rw [hy]
    exact .some ⟨h.left.of_lookup hx, h.right.of_lookup hy, hsame⟩
  | none =>
    have habsent : fs.lookup key = none := by
      rwa [Entries.lookup_eq_none_iff, ← h.keys_perm.mem_iff, ← Entries.lookup_eq_none_iff]
    rw [habsent]
    exact .none

section Respecting

/-! A property that equal trees share holds of what equal trees hold in the same places. -/

variable {P : Tree → Prop} (hP : ∀ t u : Tree, t.Matches u → (P t ↔ P u))

include hP

theorem Matches.forall_item_iff {xs ys : List Tree} (h : (array xs).Matches (array ys)) :
    (∀ x ∈ xs, P x) ↔ ∀ y ∈ ys, P y := by
  have hitems := h.items
  clear h
  induction hitems with
  | nil => exact Iff.rfl
  | cons hmatches _ ih =>
    rw [List.forall_mem_cons, List.forall_mem_cons]
    exact and_congr (hP _ _ hmatches) ih

theorem Matches.exists_lookup_iff {es fs : Entries Tree} (h : (object es).Matches (object fs)) (key : String) :
    (∃ t, es.lookup key = some t ∧ P t) ↔ ∃ t, fs.lookup key = some t ∧ P t := by
  have hrel := h.lookup key
  generalize es.lookup key = x at hrel ⊢
  generalize fs.lookup key = y at hrel ⊢
  cases hrel with
  | none => exact Iff.rfl
  | some hmatches => simp [hP _ _ hmatches]

theorem Matches.forall_lookup_iff {es fs : Entries Tree} (h : (object es).Matches (object fs)) (key : String) :
    (∀ t, es.lookup key = some t → P t) ↔ ∀ t, fs.lookup key = some t → P t := by
  have hrel := h.lookup key
  generalize es.lookup key = x at hrel ⊢
  generalize fs.lookup key = y at hrel ⊢
  cases hrel with
  | none => exact Iff.rfl
  | some hmatches => simp [hP _ _ hmatches]

end Respecting

theorem Matches.forall_entry_iff {P : String → Tree → Prop}
    (hP : ∀ key, ∀ t u : Tree, t.Matches u → (P key t ↔ P key u)) {es fs : Entries Tree}
    (h : (object es).Matches (object fs)) : (∀ e ∈ es, P e.1 e.2) ↔ ∀ e ∈ fs, P e.1 e.2 := by
  have hes := h.left.nodup_keys
  have hfs := h.right.nodup_keys
  have hlookup (gs : Entries Tree) (hgs : gs.keys.Nodup) :
      (∀ e ∈ gs, P e.1 e.2) ↔ ∀ key t, gs.lookup key = some t → P key t :=
    ⟨fun hall key t ht => hall (key, t) (Entries.mem_of_lookup ht),
      fun hall e he => hall e.1 e.2 (Entries.lookup_of_mem hgs he)⟩
  rw [hlookup es hes, hlookup fs hfs]
  exact forall_congr' fun key => Matches.forall_lookup_iff (hP key) h key

end Tree

end CampusQuery
