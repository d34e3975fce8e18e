import CampusQuery.Proofs.Filter.Typing
import CampusQuery.Proofs.Grammar.Language
import CampusQuery.Proofs.Plan.Typing

/-! What holds of all plans, whatever the query is that they are read off. Main statement: a plan reads
fields of one dataset of a known kind, each with its place and type, and shows what it has values of. -/

namespace CampusQuery

theorem Options.isId_of_ofTree {kinds : Entries Kind} {transformations : Option (Entries Tree)}
    {entries : Entries Tree} {o : Options} (h : ofTree kinds transformations entries = .ok o) :
    IsId o.datasetId := by
  obtain ⟨-, hknown, hgroup, hdataset, -⟩ := ofTree_eq_ok_iff.1 h
  rcases hattributes : o.attributes with _ | ⟨a, rest⟩
  · obtain ⟨_, _, _, _, -, -, hsplit, -⟩ := groupDatasetId_eq_ok_iff.1 (hgroup hattributes)
    obtain ⟨-, hne, hid, -⟩ := splitKey_eq_ok_iff.1 hsplit
    exact ⟨hne, hid⟩
  · have ha : a ∈ o.attributes := by simp [hattributes]
    obtain ⟨_, -, -, hid⟩ := hknown _ (mem_attributes_iff.1 ha)
    exact hdataset a ha ▸ hid

namespace Plan

/-- All that the plan reads of a row: for its columns, for its filter, to group by and to reduce. -/
def attributes (p : Plan) : List Attribute :=
  p.options.attributes ++ p.filter.elim [] Filter.attributes ++
    p.transformation.elim [] fun t => t.group ++ t.apply.map Application.field

structure WellTyped (p : Plan) (kind : Kind) : Prop where
  attributes : ∀ a ∈ p.attributes, a.LiesIn (p.scope kind)
  filter : ∀ f, p.filter = some f → f.WellTyped (p.scope kind)
  numeric : ∀ t, p.transformation = some t →
    ∀ a ∈ t.apply, a.reduction ≠ .count → a.field.type = .number
  named : ∀ t, p.transformation = some t →
    (t.apply.map Application.name).Nodup ∧ ∀ a ∈ t.apply, a.name ≠ "" ∧ '_' ∉ a.name.toList
  grouped : ∀ t, p.transformation = some t → ∀ c ∈ p.options.columns, t.Has c
  ungrouped : p.transformation = none → ∀ c ∈ p.options.columns, ∃ a, c = .field a
  order : ∀ o, p.options.order = some o → ∀ key ∈ o.keys, key ∈ p.options.keys

variable {p : Plan} {kind : Kind}

theorem Typed.liesIn (h : p.Typed kind)
    (hfilter : ∀ f, p.filter = some f → f.WellTyped (p.scope kind)) :
    ∀ a ∈ p.attributes, a.LiesIn (p.scope kind) := by
  intro a ha
  unfold attributes at ha
  rw [List.mem_append, List.mem_append] at ha
  rcases ha with (hcolumn | hread) | htransformed
  · exact h.field a (Options.mem_attributes_iff.1 hcolumn)
  · rcases hf : p.filter with _ | f
    · simp [hf] at hread
    · rw [hf] at hread
      exact (hfilter f hf).liesIn a hread
  · rcases ht : p.transformation with _ | t
    · simp [ht] at htransformed
    · rw [ht, Option.elim_some, List.mem_append] at htransformed
      obtain ⟨hfits, -⟩ := h.transformation t ht
      rcases htransformed with hgroup | hreduced
      · exact hfits.group a hgroup
      · obtain ⟨b, hb, rfl⟩ := List.mem_map.1 hreduced
        exact (hfits.apply b hb).field

theorem Typed.wellTyped (h : p.Typed kind)
    (hfilter : ∀ f, p.filter = some f → f.WellTyped (p.scope kind)) : p.WellTyped kind := by
  refine ⟨h.liesIn hfilter, hfilter, fun t ht a ha hne => ?_, fun t ht => ⟨?_, fun a ha => ?_⟩,
    fun t ht => (h.transformation t ht).2, fun hnone c hc => ?_, h.order⟩
  · exact ((h.transformation t ht).1.apply a ha).numeric (bne_iff_ne.2 hne)
  · exact (h.transformation t ht).1.names_nodup
  · exact Grammar.isApplyName_iff.1 ((h.transformation t ht).1.apply a ha).name
  · rcases c with a | name
    · exact ⟨a, rfl⟩
    · have htransformed := (h.applied name hc).2
      rw [hnone] at htransformed
      cases htransformed

/-- Whether or not the query has passed its check, the plan read off it is well typed, and its columns
are those of the query. -/
theorem wellTyped_of_ofTree {kinds : Entries Kind} {query : Tree} (h : ofTree kinds query = .ok p) :
    ∃ kind, kinds.lookup p.options.datasetId = some kind ∧ p.WellTyped kind ∧
      query.columns? = some (.array (p.options.keys.map .text)) := by
  obtain ⟨kind, hkind, hread⟩ := readOff_of_ofTree h
  obtain ⟨_, _, _, _, _, -, -, -, ho, -⟩ := ofTree_eq_ok_iff.1 h
  have hid : IsId (p.scope kind).datasetId := Options.isId_of_ofTree ho
  obtain ⟨t, -, -, hwhere⟩ := hread.filter
  refine ⟨kind, hkind, hread.typed.wellTyped fun f hf => ?_, hread.columns⟩
  rw [hf] at hwhere
  exact Filter.wellTyped_of_ofWhere hid hwhere

/-- How many good sections there are outside of one department. No column is a field, so the dataset is
that of GROUP. -/
def goodSections : Tree :=
  .object
    [("OPTIONS", .object [("COLUMNS", .array [.text "sections"])]),
      ("WHERE", .object [("NOT", .object [("OR", .array
        [.object [("IS", .object [("courses_dept", .text "math")])],
          .object [("LT", .object [("courses_avg", .number (.ofNat 90))])]])])]),
      ("TRANSFORMATIONS", .object
        [("GROUP", .array [.text "courses_year"]),
          ("APPLY", .array [.object [("sections", .object [("COUNT", .text "courses_id")])]])])]

def goodSectionsPlan : Plan where
  filter := some (.not (.any
    [.like ⟨"courses", "dept", 0, .text⟩ ⟨false, ['m', 'a', 't', 'h'], false⟩,
      .compare .less ⟨"courses", "avg", 2, .number⟩ (.ofNat 90)]))
  options := { datasetId := "courses", columns := [.apply "sections"], order := none }
  transformation := some
    { group := [⟨"courses", "year", 9, .number⟩]
      apply := [⟨"sections", .count, ⟨"courses", "id", 1, .text⟩⟩] }

theorem wellTyped_goodSections :
    ofTree [("rooms", .rooms), ("courses", .sections)] goodSections = .ok goodSectionsPlan ∧
      goodSectionsPlan.WellTyped .sections := by
  have hread : ofTree [("rooms", .rooms), ("courses", .sections)] goodSections = .ok goodSectionsPlan := rfl
  obtain ⟨kind, hkind, htyped, -⟩ := wellTyped_of_ofTree hread
  obtain rfl : .sections = kind := Option.some.inj hkind
  exact ⟨hread, htyped⟩

end Plan

end CampusQuery
