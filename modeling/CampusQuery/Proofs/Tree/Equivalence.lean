import CampusQuery.Proofs.Cell.Equality
import CampusQuery.Proofs.Entries.History
import CampusQuery.Proofs.Tree.Equality

/-! Equality of trees whose objects were built by operations. Main statement: it is an equivalence, and two such objects
are equal just if they have the same names, and equal values under each. -/

namespace CampusQuery

namespace Double

theorem same_self (x : Double) : x.same x = true := (same_iff x x).2 (.inl rfl)

theorem same_trans {x y z : Double} (hxy : x.same y = true) (hyz : y.same z = true) : x.same z = true :=
  Cell.equality.trans (a := .number x) (b := .number y) (c := .number z) hxy hyz

end Double

namespace Tree

/-- A tree whose objects each come from operations on the empty object, with values that are such trees. -/
inductive Built : Tree → Prop
  | null : Built null
  | bool (b : Bool) : Built (bool b)
  | number (x : Double) : Built (number x)
  | text (s : String) : Built (text s)
  | array {items : List Tree} (h : ∀ t ∈ items, Built t) : Built (array items)
  | object {ops : List (Entries.Op Tree)} (h : ∀ op ∈ ops, ∀ t ∈ op.values, Built t) :
      Built (object (Entries.after ops))

theorem Built.wellFormed {t : Tree} (h : t.Built) : t.WellFormed := by
  induction h with
  | null | bool b => simp [WellFormed]
  | number x => exact wellFormed_number x
  | text s => exact wellFormed_text s
  | array _ ih => exact wellFormed_array_iff.2 ih
  | object _ ih =>
    exact wellFormed_object_iff.2 ⟨(Entries.leaves_after _).nodup, Entries.forall_mem_after ih⟩

/-- An object with each name once comes from collecting its own entries. -/
theorem WellFormed.built {t : Tree} (h : t.WellFormed) : t.Built := by
  induction t using Tree.induction with
  | null => exact .null
  | bool b => exact .bool b
  | number x => exact .number x
  | text s => exact .text s
  | array items ih =>
    have hitems := wellFormed_array_iff.1 h
    exact .array fun t ht => ih t ht (hitems t ht)
  | object entries ih =>
    obtain ⟨hnodup, hvalues⟩ := wellFormed_object_iff.1 h
    have hentries : entries = Entries.after [.collect entries] := (Entries.ofList_of_nodup hnodup).symm
    rw [hentries]
    refine .object (List.forall_mem_singleton.2 fun t ht => ?_)
    obtain ⟨e, he, rfl⟩ := List.mem_map.1 ht
    exact ih e he (hvalues e he)

theorem built_iff_wellFormed {t : Tree} : t.Built ↔ t.WellFormed := ⟨Built.wellFormed, WellFormed.built⟩

namespace Matches

variable {t u v : Tree}

theorem refl (h : t.WellFormed) : t.Matches t := by
  refine ⟨h, h, ?_⟩
  induction t using Tree.induction with
  | null | bool b | text s => simp [Tree.same]
  | number x =>
    rw [Tree.same]
    exact x.same_self
  | array items ih =>
    have hitems := wellFormed_array_iff.1 h
    exact same_array_iff.2 (List.forall₂_same.2 fun t ht => ih t ht (hitems t ht))
  | object entries ih =>
    obtain ⟨hnodup, hvalues⟩ := wellFormed_object_iff.1 h
    exact same_object_iff.2 ⟨rfl, fun e he => ⟨e.2, Entries.lookup_of_mem hnodup he, ih e he (hvalues e he)⟩⟩

theorem of_null (h : null.Matches u) : u = null := by
  have hsame := h.same
  cases u with
  | null => rfl
  | _ => simp [Tree.same] at hsame

theorem of_bool {b : Bool} (h : (bool b).Matches u) : u = bool b := by
  have hsame := h.same
  cases u with
  | bool c => rw [Tree.same, beq_iff_eq] at hsame; rw [hsame]
  | _ => simp [Tree.same] at hsame

theorem trans (h : t.Matches u) (h' : u.Matches v) : t.Matches v := by
  refine ⟨h.left, h'.right, ?_⟩
  induction t using Tree.induction generalizing u v with
  | null =>
    obtain rfl := h.of_null
    exact h'.same
  | bool b =>
    obtain rfl := h.of_bool
    exact h'.same
  | number x =>
    obtain ⟨y, rfl, hxy⟩ := h.of_number
    obtain ⟨z, rfl, hyz⟩ := h'.of_number
    rw [Tree.same]
    exact Double.same_trans hxy hyz
  | text s =>
    obtain rfl := h.of_text
    exact h'.same
  | array items ih =>
    obtain ⟨others, rfl, hitems⟩ := h.of_array
    obtain ⟨further, rfl, hothers⟩ := h'.of_array
    rw [same_array_iff]
    clear h h'
    induction hitems generalizing further with
    | nil =>
      cases hothers
      exact .nil
    | cons hmatches _ ihrest =>
      obtain ⟨hhead, hrest⟩ := List.forall_mem_cons.1 ih
      cases hothers with
      | cons hmatches' hothers => exact .cons (hhead hmatches hmatches') (ihrest hrest _ hothers)
  | object entries ih =>
    obtain ⟨others, rfl, h⟩ := h.of_object
    obtain ⟨further, rfl, h'⟩ := h'.of_object
    refine same_object_iff.2 ⟨?_, fun e he => ?_⟩
    · exact (same_object_iff.1 h.same).1.trans (same_object_iff.1 h'.same).1
    · obtain ⟨y, hy, hxy⟩ := h.exists_lookup (Entries.lookup_of_mem h.left.nodup_keys he)
      obtain ⟨z, hz, hyz⟩ := h'.exists_lookup hy
      exact ⟨z, hz, ih e he hxy hyz⟩

end Matches

/-- Of entries on both sides none is left over, since the names are distinct. -/
theorem same_object_iff_keys {es fs : Entries Tree} (hes : (object es).WellFormed) (hfs : (object fs).WellFormed) :
    (object es).same (object fs) = true ↔ (∀ key, key ∈ es.keys ↔ key ∈ fs.keys) ∧
      ∀ key x y, es.lookup key = some x → fs.lookup key = some y → x.same y = true := by
  obtain ⟨hnodup, -⟩ := wellFormed_object_iff.1 hes
  obtain ⟨hnodup', -⟩ := wellFormed_object_iff.1 hfs
  constructor
  · intro hsame
    have hmatches : (object es).Matches (object fs) := ⟨hes, hfs, hsame⟩
    refine ⟨fun key => hmatches.keys_perm.mem_iff, fun key x y hx hy => ?_⟩
    obtain ⟨y', hy', hxy⟩ := hmatches.exists_lookup hx
    obtain rfl := Option.some.inj (hy'.symm.trans hy)
    exact hxy.same
  · rintro ⟨hkeys, hvalues⟩
    have hperm : es.keys.Perm fs.keys := (List.perm_ext_iff_of_nodup hnodup hnodup').2 hkeys
    refine same_object_iff.2 ⟨?_, fun e he => ?_⟩
    · have hlength := hperm.length_eq
      rwa [Entries.length_keys, Entries.length_keys] at hlength
    · have hkey : e.1 ∈ fs.keys := (hkeys e.1).1 (List.mem_map_of_mem he)
      obtain ⟨y, hy⟩ := Entries.exists_lookup hkey
      exact ⟨y, hy, hvalues e.1 e.2 y (Entries.lookup_of_mem hnodup he) hy⟩

theorem same_equivalence :
    Equivalence (fun t u : { t : Tree // t.Built } => t.1.same u.1 = true) ∧
      ∀ es fs : Entries Tree, (object es).Built → (object fs).Built →
        ((object es).same (object fs) = true ↔ (∀ key, key ∈ es.keys ↔ key ∈ fs.keys) ∧
          ∀ key x y, es.lookup key = some x → fs.lookup key = some y → x.same y = true) := by
  refine ⟨⟨fun t => ?_, fun {t u} h => ?_, fun {t u v} h h' => ?_⟩, fun es fs hes hfs => ?_⟩
  · exact (Matches.refl t.2.wellFormed).same
  · exact (Matches.symm ⟨t.2.wellFormed, u.2.wellFormed, h⟩).same
  · have htu : t.1.Matches u.1 := ⟨t.2.wellFormed, u.2.wellFormed, h⟩
    have huv : u.1.Matches v.1 := ⟨u.2.wellFormed, v.2.wellFormed, h'⟩
    exact (htu.trans huv).same
  · exact same_object_iff_keys hes.wellFormed hfs.wellFormed

/-- Two ways to the same names. -/
def straight : List (Entries.Op Tree) :=
  [.collect [("size", .number .zero), ("score", .array [.number .undefined])]]

def roundabout : List (Entries.Op Tree) :=
  [.insert "score" (.array [.number (.nan true 1 (by decide))]), .insert "note" .null, .insert "size" (.bool true),
    .remove "note", .insert "size" (.number .negativeZero)]

theorem same_equivalence_roundabout :
    (object (Entries.after straight)).Built ∧ (object (Entries.after roundabout)).Built ∧
      (object (Entries.after straight)).same (object (Entries.after roundabout)) = true ∧
      (object (Entries.after roundabout)).same (object (Entries.after straight)) = true ∧
      ∀ key, key ∈ (Entries.after straight).keys ↔ key ∈ (Entries.after roundabout).keys := by
  have hstraight : (object (Entries.after straight)).Built :=
    .object (by simp [straight, Entries.Op.values, Built.number, Built.array])
  have hroundabout : (object (Entries.after roundabout)).Built :=
    .object (by simp [roundabout, Entries.Op.values, Built.number, Built.array, Built.null, Built.bool])
  have hsame : (object (Entries.after straight)).same (object (Entries.after roundabout)) = true := by decide
  obtain ⟨hequivalence, hobjects⟩ := same_equivalence
  obtain ⟨hkeys, -⟩ := (hobjects _ _ hstraight hroundabout).1 hsame
  have hback := hequivalence.symm (x := ⟨_, hstraight⟩) (y := ⟨_, hroundabout⟩) hsame
  exact ⟨hstraight, hroundabout, hsame, hback, hkeys⟩

end Tree

end CampusQuery
