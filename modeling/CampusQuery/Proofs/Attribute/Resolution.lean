import CampusQuery.Attribute
import CampusQuery.Proofs.Outcome
import CampusQuery.Row
import Mathlib.Tactic

/-! Which keys name a field of a dataset. Main statement: within a scope, the key of each field of the
dataset's kind and no other key is resolved, and to the place and type that the field has there. -/

namespace CampusQuery

namespace Kind

theorem index?_eq_some {k : Kind} {f : Field} {i : ℕ} (h : k.fields[i]? = some f) :
    k.index? f.name = some i := by
  obtain ⟨hi, rfl⟩ := List.getElem?_eq_some_iff.1 h
  refine List.findIdx?_eq_some_iff_getElem.2 ⟨hi, by simp, fun j hj hname => ?_⟩
  have hne := List.pairwise_iff_getElem.1 (List.pairwise_map.1 k.fields_nodup) j i (hj.trans hi) hi hj
  exact hne (by simpa using hname)

theorem fields_ne_nil (k : Kind) : k.fields ≠ [] := by cases k <;> decide

theorem underscore_not_mem_name {k : Kind} {f : Field} (h : f ∈ k.fields) : '_' ∉ f.name.toList := by
  have hall : ∀ f ∈ k.fields, '_' ∉ f.name.toList := by cases k <;> decide
  exact hall f h

end Kind

namespace Attribute

/-- The attribute has the place and the type of its field. -/
def IsOf (a : Attribute) (kind : Kind) : Prop := kind.fields[a.index]? = some ⟨a.field, a.type⟩

instance (a : Attribute) (kind : Kind) : Decidable (a.IsOf kind) := inferInstanceAs (Decidable (_ = _))

theorem IsOf.mem {a : Attribute} {kind : Kind} (h : a.IsOf kind) : ⟨a.field, a.type⟩ ∈ kind.fields :=
  List.mem_of_getElem? h

/-- Each field of a kind has an attribute. -/
theorem exists_isOf {kind : Kind} {f : Field} (id : String) (hf : f ∈ kind.fields) :
    ∃ a : Attribute, a.IsOf kind ∧ a.datasetId = id ∧ a.field = f.name ∧ a.type = f.type := by
  obtain ⟨i, hi⟩ := List.getElem?_of_mem hf
  exact ⟨⟨id, f.name, i, f.type⟩, hi, rfl, rfl, rfl⟩

theorem of?_eq_some_iff {id name : String} {kind : Kind} {a : Attribute} :
    of? id kind name = some a ↔ a.IsOf kind ∧ a.datasetId = id ∧ a.field = name := by
  have hof : of? id kind name = (kind.index? name).bind fun i =>
      (kind.fields[i]?).map fun f => ⟨id, f.name, i, f.type⟩ := by
    simp only [of?, Kind.field?, Kind.index?, List.find?_eq_bind_findIdx?_getElem?]
    cases hi : kind.fields.findIdx? (·.name == name) with
    | none => rfl
    | some i => cases hf : kind.fields[i]? <;> simp [hf]
  rw [hof]
  constructor
  · intro h
    obtain ⟨i, hi, h⟩ := Option.bind_eq_some_iff.1 h
    obtain ⟨f, hf, rfl⟩ := Option.map_eq_some_iff.1 h
    obtain ⟨hlt, hname, -⟩ := List.findIdx?_eq_some_iff_getElem.1 hi
    refine ⟨hf, rfl, ?_⟩
    rw [← (List.getElem?_eq_some_iff.1 hf).2]
    simpa using hname
  · rintro ⟨hf, rfl, rfl⟩
    rw [Kind.index?_eq_some hf]
    simp only [Option.bind_some]
    rw [hf]
    rfl

end Attribute

theorem splitKey_eq_ok_iff {key id field : String} :
    splitKey key = .ok (id, field) ↔
      key = id ++ "_" ++ field ∧ id ≠ "" ∧ '_' ∉ id.toList ∧ '_' ∉ field.toList := by
  have hsplit : splitKey key = .ok (id, field) ↔ splitChars? key.toList = some (id.toList, field.toList) := by
    unfold splitKey
    cases h : splitChars? key.toList with
    | none => simp
    | some p =>
      obtain ⟨cs, ds⟩ := p
      simp [← String.toList_inj]
  have hkey : key = id ++ "_" ++ field ↔ key.toList = id.toList ++ '_' :: field.toList := by
    rw [← String.toList_inj]; simp
  have hid : id ≠ "" ↔ id.toList ≠ [] := by rw [← String.toList_inj.ne]; rfl
  rw [hsplit, splitChars?_eq_some_iff, hkey, hid]

/-- An id that can stand before the underscore of a key. -/
def IsId (id : String) : Prop := id ≠ "" ∧ '_' ∉ id.toList

instance (id : String) : Decidable (IsId id) := inferInstanceAs (Decidable (_ ∧ _))

namespace Attribute

theorem ofKey_eq_ok_iff {kind : Kind} {key : String} {a : Attribute} :
    ofKey kind key = .ok a ↔ a.IsOf kind ∧ key = a.key ∧ IsId a.datasetId := by
  unfold ofKey
  rw [bind_eq_ok_iff]
  constructor
  · rintro ⟨⟨id, field⟩, hsplit, h⟩
    obtain ⟨rfl, hne, hid, -⟩ := splitKey_eq_ok_iff.1 hsplit
    cases ha : of? id kind field with
    | none => simp [ha] at h
    | some b =>
      obtain rfl : b = a := by simpa [ha] using h
      obtain ⟨hof, rfl, rfl⟩ := of?_eq_some_iff.1 ha
      exact ⟨hof, rfl, hne, hid⟩
  · rintro ⟨hof, rfl, hne, hid⟩
    refine ⟨(a.datasetId, a.field), splitKey_eq_ok_iff.2
      ⟨rfl, hne, hid, Kind.underscore_not_mem_name hof.mem⟩, ?_⟩
    simp [of?_eq_some_iff.2 ⟨hof, rfl, rfl⟩]

theorem key_split {kind : Kind} {a : Attribute} (hof : a.IsOf kind) (hid : IsId a.datasetId) :
    splitKey a.key = .ok (a.datasetId, a.field) :=
  splitKey_eq_ok_iff.2 ⟨rfl, hid.1, hid.2, Kind.underscore_not_mem_name hof.mem⟩

theorem resolve_eq_ok_iff {kinds : Entries Kind} {key : String} {a : Attribute} :
    resolve kinds key = .ok a ↔
      ∃ kind, kinds.lookup a.datasetId = some kind ∧ a.IsOf kind ∧ key = a.key ∧ IsId a.datasetId := by
  unfold resolve
  rw [bind_eq_ok_iff]
  constructor
  · rintro ⟨⟨id, field⟩, hsplit, h⟩
    cases hk : kinds.lookup id with
    | none => simp [hk] at h
    | some kind =>
      simp only [hk] at h
      obtain ⟨hof, rfl, hid⟩ := ofKey_eq_ok_iff.1 h
      obtain ⟨rfl, -⟩ := Prod.mk.inj (Except.ok.inj ((key_split hof hid).symm.trans hsplit))
      exact ⟨kind, hk, hof, rfl, hid⟩
  · rintro ⟨kind, hk, hof, rfl, hid⟩
    refine ⟨_, key_split hof hid, ?_⟩
    simp only [hk]
    exact ofKey_eq_ok_iff.2 ⟨hof, rfl, hid⟩

theorem not_isApplyName_key (a : Attribute) : isApplyName a.key = false := by
  simp [isApplyName, key]

end Attribute

theorem Scope.resolve_eq_ok_iff {scope : Scope} {key : String} {a : Attribute} :
    scope.resolve key = .ok a ↔
      a.IsOf scope.kind ∧ key = a.key ∧ IsId a.datasetId ∧ a.datasetId = scope.datasetId := by
  unfold Scope.resolve
  rw [bind_eq_ok_iff]
  constructor
  · rintro ⟨⟨id, field⟩, hsplit, h⟩
    by_cases hs : id = scope.datasetId
    · simp only [hs, if_true] at h hsplit
      obtain ⟨hof, rfl, hid⟩ := Attribute.ofKey_eq_ok_iff.1 h
      obtain ⟨hds, -⟩ := Prod.mk.inj (Except.ok.inj ((Attribute.key_split hof hid).symm.trans hsplit))
      exact ⟨hof, rfl, hid, hds⟩
    · simp [hs] at h
  · rintro ⟨hof, rfl, hid, hds⟩
    refine ⟨_, Attribute.key_split hof hid, ?_⟩
    simp only [hds, if_true]
    exact Attribute.ofKey_eq_ok_iff.2 ⟨hof, rfl, hid⟩

namespace Row

theorem conforms_iff {row : Row} {kind : Kind} :
    row.conforms kind = true ↔ row.map Cell.type = kind.fields.map Field.type := by
  unfold conforms
  generalize kind.fields = fields
  induction fields generalizing row with
  | nil => cases row <;> simp
  | cons f fields ih =>
    cases row with
    | nil => simp
    | cons c row =>
      rw [List.map_cons, List.map_cons, List.cons.injEq, ← ih]
      simp only [List.length_cons, List.zip_cons_cons, List.all_cons, Bool.and_eq_true, beq_iff_eq]
      constructor
      · rintro ⟨hl, hc, hall⟩
        exact ⟨hc, by omega, hall⟩
      · rintro ⟨hc, hl, hall⟩
        exact ⟨by omega, hc, hall⟩

/-- A row that fits has a cell of the right type under each attribute. -/
theorem exists_cell {row : Row} {kind : Kind} (h : row.conforms kind = true) {a : Attribute}
    (ha : a.IsOf kind) : ∃ c, row[a.index]? = some c ∧ c.type = a.type := by
  have hmap := congrArg (·[a.index]?) (conforms_iff.1 h)
  simp only [List.getElem?_map] at hmap
  rw [ha] at hmap
  exact Option.map_eq_some_iff.1 hmap

end Row

end CampusQuery
