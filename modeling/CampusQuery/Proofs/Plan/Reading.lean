import CampusQuery.Plan.OfTree
import CampusQuery.Proofs.Attribute.Resolution

/-! Which queries are read as plans, and as which ones. -/

namespace CampusQuery

namespace Column

/-- A field of a known dataset or, where there are transformations, an apply name. -/
def Known (kinds : Entries Kind) (transformed : Bool) : Column → Prop
  | .field a => ∃ kind, kinds.lookup a.datasetId = some kind ∧ a.IsOf kind ∧ IsId a.datasetId
  | .apply name => isApplyName name = true ∧ transformed = true

theorem ofTree_eq_ok_iff {kinds : Entries Kind} {transformed : Bool} {t : Tree} {c : Column} :
    ofTree kinds transformed t = .ok c ↔ t = .text c.key ∧ c.Known kinds transformed := by
  constructor
  · intro h
    unfold ofTree at h
    split at h
    · next key =>
      split at h
      · next hname =>
        split at h
        · next htransformed =>
          obtain rfl := Except.ok.inj h
          exact ⟨rfl, hname, htransformed⟩
        · cases h
      · obtain ⟨a, ha, hc⟩ := bind_eq_ok_iff.1 h
        obtain rfl := pure_eq_ok_iff.1 hc
        obtain ⟨kind, hkind, hof, rfl, hid⟩ := Attribute.resolve_eq_ok_iff.1 ha
        exact ⟨rfl, kind, hkind, hof, hid⟩
    · cases h
  · rintro ⟨rfl, hknown⟩
    unfold ofTree
    cases c with
    | field a =>
      obtain ⟨kind, hkind, hof, hid⟩ := hknown
      have hname : isApplyName (Column.field a).key = false := a.not_isApplyName_key
      simp only [hname, Bool.false_eq_true, if_false]
      exact bind_eq_ok_iff.2 ⟨a, Attribute.resolve_eq_ok_iff.2 ⟨kind, hkind, hof, rfl, hid⟩, rfl⟩
    | apply name =>
      obtain ⟨hname, rfl⟩ := hknown
      simp only [key, hname, if_true]

theorem mapM_ofTree_eq_ok_iff {kinds : Entries Kind} {transformed : Bool} {items : List Tree}
    {columns : List Column} :
    items.mapM (ofTree kinds transformed) = .ok columns ↔
      items = (columns.map key).map .text ∧ ∀ c ∈ columns, c.Known kinds transformed := by
  rw [mapM_eq_ok_iff_map fun _ _ => ofTree_eq_ok_iff, List.map_map]
  rfl

end Column

namespace Options

theorem datasetIdOf_eq_ok_iff {kinds : Entries Kind} {transformations : Option (Entries Tree)}
    {attributes : List Attribute} {id : String} (hall : ∀ a ∈ attributes, a.datasetId = id) :
    datasetIdOf kinds transformations attributes = .ok id ↔
      (attributes = [] → groupDatasetId kinds transformations = .ok id) := by
  cases attributes with
  | nil => simp [datasetIdOf]
  | cons a rest => simp [datasetIdOf, hall a]

theorem checkDataset_eq_ok_iff {id : String} {attributes : List Attribute} :
    checkDataset id attributes = .ok () ↔ ∀ a ∈ attributes, a.datasetId = id := by
  unfold checkDataset
  cases h : attributes.find? (·.datasetId ≠ id) with
  | none => simpa using List.find?_eq_none.1 h
  | some a =>
    refine ⟨nofun, fun hall => ?_⟩
    have hne := List.find?_some h
    simp [hall a (List.mem_of_find?_eq_some h)] at hne

theorem groupDatasetId_eq_ok_iff {kinds : Entries Kind} {transformations : Option (Entries Tree)}
    {id : String} :
    groupDatasetId kinds transformations = .ok id ↔
      ∃ entries key keys field, transformations = some entries ∧
        entries.lookup "GROUP" = some (.array (.text key :: keys)) ∧ splitKey key = .ok (id, field) ∧
        (kinds.lookup id).isSome = true := by
  unfold groupDatasetId
  split
  · next key keys hgroup =>
    obtain ⟨entries, rfl, hlookup⟩ := Option.bind_eq_some_iff.1 hgroup
    rw [bind_eq_ok_iff]
    constructor
    · rintro ⟨⟨id', field⟩, hsplit, h⟩
      by_cases hknown : (kinds.lookup id').isSome = true
      · obtain rfl : id' = id := by simpa [hknown] using h
        exact ⟨entries, key, keys, field, rfl, hlookup, hsplit, hknown⟩
      · simp [hknown] at h
    · rintro ⟨entries', key', keys', field, heq, hlookup', hsplit, hknown⟩
      obtain rfl := Option.some.inj heq
      obtain ⟨rfl, -⟩ : key = key' ∧ keys = keys' := by simpa [hlookup] using hlookup'
      exact ⟨(id, field), hsplit, by simp [hknown]⟩
  · next hne =>
    refine ⟨nofun, ?_⟩
    rintro ⟨entries, key, keys, field, rfl, hlookup, -⟩
    exact absurd hlookup (hne key keys)

theorem ofTree_eq_ok_iff {kinds : Entries Kind} {transformations : Option (Entries Tree)}
    {entries : Entries Tree} {o : Options} :
    ofTree kinds transformations entries = .ok o ↔
      entries.lookup "COLUMNS" = some (.array (o.keys.map .text)) ∧
      (∀ c ∈ o.columns, c.Known kinds transformations.isSome) ∧
      (o.attributes = [] → groupDatasetId kinds transformations = .ok o.datasetId) ∧
      (∀ a ∈ o.attributes, a.datasetId = o.datasetId) ∧
      (entries.lookup "ORDER").mapM (Order.ofTree o.columns) = .ok o.order := by
  unfold ofTree
  split
  · next items hitems =>
    constructor
    · intro h
      obtain ⟨columns, hcolumns, h⟩ := bind_eq_ok_iff.1 h
      obtain ⟨id, hid, h⟩ := bind_eq_ok_iff.1 h
      obtain ⟨hcheck, h⟩ := check_bind_eq_ok_iff.1 h
      obtain ⟨order, horder, h⟩ := bind_eq_ok_iff.1 h
      obtain rfl := pure_eq_ok_iff.1 h
      obtain ⟨rfl, hknown⟩ := Column.mapM_ofTree_eq_ok_iff.1 hcolumns
      have hall := checkDataset_eq_ok_iff.1 hcheck
      exact ⟨hitems, hknown, (datasetIdOf_eq_ok_iff hall).1 hid, hall, horder⟩
    · intro ⟨hkeys, hknown, hgroup, hall, horder⟩
      obtain rfl : items = o.keys.map .text := Tree.array.inj (Option.some.inj (hitems.symm.trans hkeys))
      refine bind_eq_ok_iff.2 ⟨o.columns, Column.mapM_ofTree_eq_ok_iff.2 ⟨rfl, hknown⟩, ?_⟩
      refine bind_eq_ok_iff.2 ⟨o.datasetId, (datasetIdOf_eq_ok_iff hall).2 hgroup, ?_⟩
      refine check_bind_eq_ok_iff.2 ⟨checkDataset_eq_ok_iff.2 hall, ?_⟩
      exact bind_eq_ok_iff.2 ⟨o.order, horder, rfl⟩
  · next hne =>
    refine ⟨nofun, fun ⟨hkeys, _⟩ => ?_⟩
    exact absurd hkeys (hne _)

end Options

namespace Plan

theorem objects_eq_ok_iff {t : Option Tree} {entries : Option (Entries Tree)} {fault : Fault} :
    (t.mapM fun
      | .object entries => .ok entries
      | _ => .error fault) = (.ok entries : Except Fault _) ↔ t = entries.map .object := by
  rw [optionMapM_eq_ok_iff]
  constructor
  · intro h
    rcases h with ⟨rfl, rfl⟩ | ⟨u, es, rfl, rfl, hu⟩
    · rfl
    · cases u with
      | object es' => exact congrArg _ (congrArg _ (Except.ok.inj hu))
      | _ => cases hu
  · intro h
    cases entries with
    | none => exact .inl ⟨h, rfl⟩
    | some es => exact .inr ⟨.object es, es, h, rfl, rfl⟩

theorem ofTree_eq_ok_iff {kinds : Entries Kind} {query : Tree} {p : Plan} :
    ofTree kinds query = .ok p ↔ ∃ root options transformations kind whereTree,
      query = .object root ∧ root.lookup "OPTIONS" = some (.object options) ∧
      (root.lookup "TRANSFORMATIONS" = transformations.map .object) ∧
      Options.ofTree kinds transformations options = .ok p.options ∧
      kinds.lookup p.options.datasetId = some kind ∧
      transformations.mapM (Transformation.ofTree ⟨p.options.datasetId, kind⟩ p.options.columns) =
        .ok p.transformation ∧
      root.lookup "WHERE" = some whereTree ∧
      Filter.ofWhere ⟨p.options.datasetId, kind⟩ whereTree = .ok p.filter := by
  unfold ofTree
  constructor
  · intro h
    split at h
    · next root =>
      split at h
      · next options hoptions =>
        obtain ⟨transformations, htransformations, h⟩ := bind_eq_ok_iff.1 h
        obtain ⟨o, ho, h⟩ := bind_eq_ok_iff.1 h
        split at h
        · next kind hkind =>
          obtain ⟨transformation, htransformation, h⟩ := bind_eq_ok_iff.1 h
          split at h
          · next whereTree hwhere =>
            obtain ⟨filter, hfilter, hp⟩ := bind_eq_ok_iff.1 h
            obtain rfl := pure_eq_ok_iff.1 hp
            refine ⟨root, options, transformations, kind, whereTree, rfl, hoptions, ?_, ho, hkind,
              htransformation, hwhere, hfilter⟩
            exact objects_eq_ok_iff.1 htransformations
          · cases h
        · cases h
      · cases h
    · cases h
  · intro ⟨root, options, transformations, kind, whereTree, hquery, hoptions, htransformations, ho, hkind,
      htransformation, hwhere, hfilter⟩
    subst hquery
    simp only [hoptions]
    refine bind_eq_ok_iff.2 ⟨transformations, ?_, ?_⟩
    · exact objects_eq_ok_iff.2 htransformations
    · refine bind_eq_ok_iff.2 ⟨p.options, ho, ?_⟩
      simp only [hkind]
      refine bind_eq_ok_iff.2 ⟨p.transformation, htransformation, ?_⟩
      simp only [hwhere]
      exact bind_eq_ok_iff.2 ⟨p.filter, hfilter, rfl⟩

end Plan

end CampusQuery
