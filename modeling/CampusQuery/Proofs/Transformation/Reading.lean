import CampusQuery.Proofs.Attribute.Resolution
import CampusQuery.Transformation.OfTree

/-! Which trees are read as transformations, and as which ones. -/

namespace CampusQuery

theorem Reduction.ofKey?_eq_some_iff {key : String} {r : Reduction} : ofKey? key = some r ↔ key = r.key := by
  constructor
  · intro h
    have hkey := List.find?_some h
    exact (beq_iff_eq.1 hkey).symm
  · rintro rfl
    cases r <;> rfl

/-- A field of the dataset that a query is about. -/
structure Attribute.LiesIn (a : Attribute) (scope : Scope) : Prop where
  isOf : a.IsOf scope.kind
  datasetId : a.datasetId = scope.datasetId
  isId : IsId a.datasetId

theorem Scope.resolves_iff {scope : Scope} {key : String} {a : Attribute} :
    scope.resolve key = .ok a ↔ key = a.key ∧ a.LiesIn scope := by
  rw [resolve_eq_ok_iff]
  exact ⟨fun ⟨hof, hkey, hid, hds⟩ => ⟨hkey, hof, hds, hid⟩, fun ⟨hkey, hof, hds, hid⟩ => ⟨hof, hkey, hid, hds⟩⟩

namespace Application

/-- The entry of APPLY for an application. -/
def toTree (a : Application) : Tree := .object [(a.name, .object [(a.reduction.key, .text a.field.key)])]

structure Fits (a : Application) (scope : Scope) : Prop where
  name : isApplyName a.name = true
  field : a.field.LiesIn scope
  numeric : a.reduction.needsNumbers = true → a.field.type = .number

theorem ofTree_eq_ok_iff {scope : Scope} {t : Tree} {a : Application} :
    ofTree scope t = .ok a ↔ t = a.toTree ∧ a.Fits scope := by
  constructor
  · intro h
    unfold ofTree at h
    split at h
    · next name body =>
      by_cases hname : isApplyName name = true
      · simp only [hname, if_true] at h
        split at h
        · next rule target =>
          split at h
          · next reduction hreduction =>
            split at h
            · next key =>
              obtain ⟨field, hfield, h⟩ := bind_eq_ok_iff.1 h
              obtain ⟨rfl, hlies⟩ := Scope.resolves_iff.1 hfield
              obtain ⟨hnumeric, h⟩ := throw_if_eq_ok_iff.1 h
              obtain rfl := pure_eq_ok_iff.1 h
              obtain rfl := Reduction.ofKey?_eq_some_iff.1 hreduction
              refine ⟨rfl, hname, hlies, fun hneeds => ?_⟩
              cases htype : field.type with
              | number => rfl
              | text => simp [hneeds, htype, FieldType.isNumeric] at hnumeric
            · cases h
          · cases h
        · cases h
      · simp only [hname] at h
        cases h
    · cases h
  · rintro ⟨rfl, hname, hlies, hnumeric⟩
    have hreduction : Reduction.ofKey? a.reduction.key = some a.reduction := Reduction.ofKey?_eq_some_iff.2 rfl
    unfold ofTree toTree
    simp only [hname, if_true, hreduction]
    refine bind_eq_ok_iff.2 ⟨a.field, Scope.resolves_iff.2 ⟨rfl, hlies⟩, ?_⟩
    refine throw_if_eq_ok_iff.2 ⟨?_, rfl⟩
    cases hneeds : a.reduction.needsNumbers with
    | false => simp
    | true => simp [hnumeric hneeds, FieldType.isNumeric]

end Application

namespace Transformation

/-- The transformation is of fields of the scope, and names its applications apart. -/
structure Fits (t : Transformation) (scope : Scope) : Prop where
  group_ne_nil : t.group ≠ []
  group : ∀ a ∈ t.group, a.LiesIn scope
  apply : ∀ a ∈ t.apply, a.Fits scope
  names_nodup : (t.apply.map Application.name).Nodup

/-- The column has one value for each group. -/
def Has (t : Transformation) : Column → Prop
  | .field a => a ∈ t.group
  | .apply name => ∃ a ∈ t.apply, a.name = name

theorem checkColumn_eq_ok_iff {t : Transformation} {c : Column} : t.checkColumn c = .ok () ↔ t.Has c := by
  cases c with
  | field a => simp [checkColumn, Has]
  | apply name => simp [checkColumn, Has, application?, List.find?_isSome]

theorem applicationsOfTrees_eq_ok_iff {scope : Scope} {used : List String} {ts : List Tree}
    {as : List Application} :
    applicationsOfTrees scope used ts = .ok as ↔
      ts = as.map Application.toTree ∧ (∀ a ∈ as, a.Fits scope) ∧
        (as.map Application.name).Nodup ∧ ∀ a ∈ as, a.name ∉ used := by
  induction ts generalizing used as with
  | nil => cases as <;> simp [applicationsOfTrees]
  | cons t ts ih =>
    unfold applicationsOfTrees
    constructor
    · intro h
      obtain ⟨a, ha, hafter⟩ := bind_eq_ok_iff.1 h
      obtain ⟨rfl, hfits⟩ := Application.ofTree_eq_ok_iff.1 ha
      by_cases hused : a.name ∈ used
      · rw [if_pos hused] at hafter
        cases hafter
      · rw [if_neg hused] at hafter
        obtain ⟨rest, hrest, hcons⟩ := bind_eq_ok_iff.1 hafter
        obtain rfl := pure_eq_ok_iff.1 hcons
        obtain ⟨rfl, hall, hnodup, hapart⟩ := ih.1 hrest
        simp only [List.mem_cons, not_or] at hapart
        refine ⟨rfl, List.forall_mem_cons.2 ⟨hfits, hall⟩, List.nodup_cons.2 ⟨?_, hnodup⟩, ?_⟩
        · intro hmem
          obtain ⟨b, hb, hname⟩ := List.mem_map.1 hmem
          exact (hapart b hb).1 hname
        · exact List.forall_mem_cons.2 ⟨hused, fun b hb => (hapart b hb).2⟩
    · rintro ⟨hts, hall, hnodup, hapart⟩
      cases as with
      | nil => cases hts
      | cons a rest =>
        obtain ⟨rfl, rfl⟩ := List.cons.inj hts
        obtain ⟨hfits, hall⟩ := List.forall_mem_cons.1 hall
        obtain ⟨hnew, hnodup⟩ := List.nodup_cons.1 hnodup
        obtain ⟨hused, hapart⟩ := List.forall_mem_cons.1 hapart
        refine bind_eq_ok_iff.2 ⟨a, Application.ofTree_eq_ok_iff.2 ⟨rfl, hfits⟩, ?_⟩
        rw [if_neg hused]
        refine bind_eq_ok_iff.2 ⟨rest, ih.2 ⟨rfl, hall, hnodup, fun b hb => ?_⟩, rfl⟩
        rw [List.mem_cons, not_or]
        refine ⟨fun hname => hnew ?_, hapart b hb⟩
        exact hname ▸ List.mem_map_of_mem hb

theorem groupKeyOfTree_eq_ok_iff {scope : Scope} {t : Tree} {a : Attribute} :
    groupKeyOfTree scope t = .ok a ↔ t = .text a.key ∧ a.LiesIn scope := by
  cases t with
  | text key => simp [groupKeyOfTree, Scope.resolves_iff]
  | _ => simp [groupKeyOfTree]

theorem ofTree_eq_ok_iff {scope : Scope} {columns : List Column} {entries : Entries Tree} {t : Transformation} :
    ofTree scope columns entries = .ok t ↔
      entries.lookup "GROUP" = some (.array (t.group.map (.text ·.key))) ∧
      entries.lookup "APPLY" = some (.array (t.apply.map Application.toTree)) ∧
      t.Fits scope ∧ ∀ c ∈ columns, t.Has c := by
  unfold ofTree
  constructor
  · intro h
    split at h
    · next key keys hgroup =>
      obtain ⟨group, hread, h⟩ := bind_eq_ok_iff.1 h
      split at h
      · next items happly =>
        obtain ⟨apply, hitems, h⟩ := bind_eq_ok_iff.1 h
        obtain ⟨hcolumns, h⟩ := check_bind_eq_ok_iff.1 h
        obtain rfl := pure_eq_ok_iff.1 h
        obtain ⟨hkeys, hlies⟩ := (mapM_eq_ok_iff_map fun _ _ => groupKeyOfTree_eq_ok_iff).1 hread
        obtain ⟨rfl, hfits, hnodup, -⟩ := applicationsOfTrees_eq_ok_iff.1 hitems
        refine ⟨by rw [hgroup, hkeys], happly, ⟨?_, hlies, hfits, hnodup⟩, fun c hc => ?_⟩
        · rintro rfl
          cases hkeys
        · exact checkColumn_eq_ok_iff.1 (forM_eq_ok_iff.1 hcolumns c hc)
      · cases h
    · cases h
  · intro ⟨hgroup, happly, ⟨hne, hlies, hfits, hnodup⟩, hcolumns⟩
    obtain ⟨a, rest, hcons⟩ := List.exists_cons_of_ne_nil hne
    rw [hcons, List.map_cons] at hgroup
    simp only [hgroup, happly]
    have hread : (t.group.map fun a => Tree.text a.key).mapM (groupKeyOfTree scope) = .ok t.group :=
      (mapM_eq_ok_iff_map fun _ _ => groupKeyOfTree_eq_ok_iff).2 ⟨rfl, hlies⟩
    rw [hcons, List.map_cons] at hread
    refine bind_eq_ok_iff.2 ⟨t.group, hcons ▸ hread, ?_⟩
    refine bind_eq_ok_iff.2 ⟨t.apply, applicationsOfTrees_eq_ok_iff.2 ⟨rfl, hfits, hnodup, ?_⟩, ?_⟩
    · exact fun _ _ => List.not_mem_nil
    · refine check_bind_eq_ok_iff.2 ⟨forM_eq_ok_iff.2 fun c hc => ?_, rfl⟩
      exact checkColumn_eq_ok_iff.2 (hcolumns c hc)

end Transformation

end CampusQuery
