import CampusQuery.Proofs.Plan.Typing
import CampusQuery.Proofs.Record.Projection

/-! Queries without TRANSFORMATIONS. Main statement: unless they are too many, exactly the rows that pass
are answered, each one projected onto COLUMNS, in the order of the dataset or as ORDER says. -/

namespace CampusQuery

/-- A row that does not fit the kind passes only where there is no filter. -/
def passes (filter : Option Filter) (kind : Kind) (row : Row) : Bool :=
  filter.all fun f => row.conforms kind && f.accepts row

namespace Plan

theorem matching_eq (p : Plan) (d : Dataset) : p.matching d = d.rows.filter (passes p.filter d.kind) := by
  unfold matching passes
  cases p.filter with
  | none => simp
  | some f => rfl

variable {p : Plan} {kind : Kind}

theorem Typed.columns_of_ungrouped (h : p.Typed kind) (hnone : p.transformation = none) :
    p.options.columns = p.options.attributes.map .field := by
  have hfields : ∀ c ∈ p.options.columns, c.field?.map Column.field = some c := by
    intro c hc
    cases c with
    | field a => rfl
    | apply name =>
      have htransformed := (h.applied name hc).2
      rw [hnone] at htransformed
      cases htransformed
  unfold Options.attributes
  rw [List.map_filterMap, List.filterMap_congr hfields, List.filterMap_some]

theorem Typed.keys_of_ungrouped (h : p.Typed kind) (hnone : p.transformation = none) :
    p.options.keys = p.options.attributes.map Attribute.key := by
  rw [Options.keys, h.columns_of_ungrouped hnone, List.map_map]
  rfl

theorem Typed.records_of_ungrouped (h : p.Typed kind) (hnone : p.transformation = none) (rows : List Row) :
    p.records rows = rows.map (Row.projection · p.options.datasetId kind p.options.keys) := by
  have hlies : ∀ a ∈ p.options.attributes, a.LiesIn (p.scope kind) := fun a ha =>
    h.field a (Options.mem_attributes_iff.1 ha)
  rw [h.keys_of_ungrouped hnone]
  unfold records
  rw [hnone]
  exact List.map_congr_left fun row _ =>
    Record.ofRow_eq_projection (fun a ha => (hlies a ha).isOf) (fun a ha => (hlies a ha).datasetId) row

theorem ReadOff.transformation_eq_none {query : Tree} (h : p.ReadOff query kind)
    (hplain : query.get? "TRANSFORMATIONS" = none) : p.transformation = none := by
  refine Option.eq_none_iff_forall_ne_some.2 fun t ht => ?_
  obtain ⟨transformations, hsome, -⟩ := h.grouped t ht
  cases hplain.symm.trans hsome

end Plan

namespace Context

theorem answer_ungrouped {ctx : Context} {query : Tree} {p : Plan} (hplan : ctx.plan query = .ok p)
    (hplain : query.get? "TRANSFORMATIONS" = none) :
    ∃ d keys, ctx.dataset? p.options.datasetId = some d ∧
      query.columns? = some (.array (keys.map .text)) ∧
      (∀ key ∈ keys, ∃ f ∈ d.kind.fields, key = p.options.datasetId ++ "_" ++ f.name) ∧
      (∃ t, query.get? "WHERE" = some t ∧ (p.filter = none ↔ t = .object []) ∧
        Filter.ofWhere ⟨p.options.datasetId, d.kind⟩ t = .ok p.filter) ∧
      (let rows := d.rows.filter (passes p.filter d.kind)
        let projections := rows.map (Row.projection · p.options.datasetId d.kind keys)
        if ctx.cap < rows.length then ctx.answer query = .error (.resultTooLarge ctx.cap rows.length)
        else ∃ records, ctx.answer query = .ok records ∧ records.length = rows.length ∧
          records.Perm projections ∧ Arranged query.order? projections records) ∧
      ((∃ records, ctx.answer query.withoutOrder = .ok records) ↔
        ∃ records, ctx.answer query = .ok records) := by
  obtain ⟨d, hd, hread⟩ := exists_readOff hplan
  have hnone := hread.transformation_eq_none hplain
  refine ⟨d, p.options.keys, hd, hread.columns, ?_, hread.filter, ?_, answered_withoutOrder_iff hplan⟩
  · intro key hkey
    rw [hread.typed.keys_of_ungrouped hnone] at hkey
    obtain ⟨a, ha, rfl⟩ := List.mem_map.1 hkey
    have hlies := hread.typed.field a (Options.mem_attributes_iff.1 ha)
    exact ⟨_, hlies.isOf.mem, congrArg (· ++ "_" ++ a.field) hlies.datasetId⟩
  · refine answer_of_records_eq_map hplan hd ?_
    rw [hread.typed.records_of_ungrouped hnone, Plan.matching_eq]

/-- Two buildings, of which only the names are known. -/
def halls : Context :=
  { datasets := [("rooms", ⟨"rooms", .rooms, [[.text "Woodward"], [.text "Hebb"]]⟩)], cap := 2 }

def hallsByName : Tree :=
  .object [("WHERE", .object []), ("OPTIONS", .object
    [("COLUMNS", .array [.text "rooms_fullname", .text "rooms_seats"]), ("ORDER", .text "rooms_fullname")])]

def hallsPlan : Plan where
  filter := none
  options :=
    { datasetId := "rooms"
      columns := [.field ⟨"rooms", "fullname", 0, .text⟩, .field ⟨"rooms", "seats", 7, .number⟩]
      order := some ⟨.up, ["rooms_fullname"]⟩ }
  transformation := none

/-- Without a filter the rows that do not fit are answered too. -/
theorem answer_ungrouped_halls :
    halls.plan hallsByName = .ok hallsPlan ∧ hallsByName.get? "TRANSFORMATIONS" = none ∧
      ∃ records, halls.answer hallsByName = .ok records ∧ records.length = 2 := by
  have hplan : halls.plan hallsByName = .ok hallsPlan := rfl
  have hplain : hallsByName.get? "TRANSFORMATIONS" = none := rfl
  refine ⟨hplan, hplain, ?_⟩
  obtain ⟨d, keys, hd, -, -, -, hanswer, -⟩ := answer_ungrouped hplan hplain
  obtain rfl : ⟨"rooms", .rooms, [[.text "Woodward"], [.text "Hebb"]]⟩ = d := Option.some.inj hd
  obtain ⟨records, hrecords, hlength, -⟩ := hanswer
  exact ⟨records, hrecords, hlength⟩

end Context

end CampusQuery
