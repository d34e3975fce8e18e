import CampusQuery.Proofs.Answer.Ungrouped
import CampusQuery.Proofs.Record.Summary

/-! Queries with TRANSFORMATIONS. Main statement: unless there are too many groups, each group of the rows
that pass is answered with one record, in the order of the groups' first rows or as ORDER says. -/

namespace CampusQuery

theorem Transformation.groups_eq (t : Transformation) (rows : List Row) :
    t.groups rows = ((rows.map fun row => row.groupKey (t.group.map Attribute.index)).eraseDups.map fun k =>
      rows.filter (·.groupKey (t.group.map Attribute.index) == k)) :=
  classify_eq _ rows

namespace Plan

theorem Typed.records_of_grouped {p : Plan} {kind : Kind} (h : p.Typed kind) {t : Transformation}
    (ht : p.transformation = some t) (rows : List Row) :
    p.records rows = (t.groups rows).map fun group =>
      Record.under p.options.keys (t.cell? p.options.datasetId kind group) := by
  obtain ⟨hfits, hcolumns⟩ := h.transformation t ht
  unfold records
  rw [ht]
  exact List.map_congr_left fun group _ => Record.ofGroup_eq_under hfits hcolumns group

theorem ReadOff.exists_transformation {query transformations : Tree} {p : Plan} {kind : Kind}
    (h : p.ReadOff query kind) (hgrouped : query.get? "TRANSFORMATIONS" = some transformations) :
    ∃ t, p.transformation = some t ∧
      transformations.get? "GROUP" = some (.array (t.group.map (.text ·.key))) ∧
      transformations.get? "APPLY" = some (.array (t.apply.map Application.toTree)) := by
  cases ht : p.transformation with
  | none => cases hgrouped.symm.trans (h.ungrouped ht)
  | some t =>
    obtain ⟨transformations', htree, hgroup, happly⟩ := h.grouped t ht
    obtain rfl := Option.some.inj (hgrouped.symm.trans htree)
    exact ⟨t, rfl, hgroup, happly⟩

end Plan

namespace Context

/-- Fields are shown as the first row of a group has them, apply names stand for reductions over all of its
rows, and it is the groups that are counted against the cap. -/
theorem answer_grouped {ctx : Context} {query transformations : Tree} {p : Plan}
    (hplan : ctx.plan query = .ok p) (hgrouped : query.get? "TRANSFORMATIONS" = some transformations) :
    ∃ d t, ctx.dataset? p.options.datasetId = some d ∧ p.transformation = some t ∧
      transformations.get? "GROUP" = some (.array (t.group.map (.text ·.key))) ∧
      transformations.get? "APPLY" = some (.array (t.apply.map Application.toTree)) ∧
      t.Fits ⟨p.options.datasetId, d.kind⟩ ∧
      query.columns? = some (.array (p.options.keys.map .text)) ∧
      (∀ key ∈ p.options.keys, (∃ a ∈ t.group, key = a.key) ∨ ∃ a ∈ t.apply, key = a.name) ∧
      (∃ w, query.get? "WHERE" = some w ∧ (p.filter = none ↔ w = .object []) ∧
        Filter.ofWhere ⟨p.options.datasetId, d.kind⟩ w = .ok p.filter) ∧
      (∀ group, (∀ a ∈ t.group,
          t.cell? p.options.datasetId d.kind group a.key = group.head?.bind (·[a.index]?)) ∧
        ∀ a ∈ t.apply,
          t.cell? p.options.datasetId d.kind group a.name = a.reduction.ofGroup a.field.index group) ∧
      (let rows := d.rows.filter (passes p.filter d.kind)
        let keyOf (row : Row) := row.groupKey (t.group.map Attribute.index)
        let groups := (rows.map keyOf).eraseDups.map fun k => rows.filter (keyOf · == k)
        let summaries := groups.map fun group =>
          Record.under p.options.keys (t.cell? p.options.datasetId d.kind group)
        if ctx.cap < groups.length then ctx.answer query = .error (.resultTooLarge ctx.cap groups.length)
        else ∃ records, ctx.answer query = .ok records ∧ records.length = groups.length ∧
          records.Perm summaries ∧ Arranged query.order? summaries records) := by
  obtain ⟨d, hd, hread⟩ := exists_readOff hplan
  obtain ⟨t, ht, hgroup, happly⟩ := hread.exists_transformation hgrouped
  obtain ⟨hfits, hhas⟩ := hread.typed.transformation t ht
  refine ⟨d, t, hd, ht, hgroup, happly, hfits, hread.columns, ?_, hread.filter, ?_, ?_⟩
  · intro key hkey
    obtain ⟨c, hc, rfl⟩ := List.mem_map.1 hkey
    have hshown := hhas c hc
    cases c with
    | field a => exact .inl ⟨a, hshown, rfl⟩
    | apply name =>
      obtain ⟨a, ha, rfl⟩ := hshown
      exact .inr ⟨a, ha, rfl⟩
  · intro group
    exact ⟨fun a ha => hfits.cell?_key ha group, fun a ha => hfits.cell?_name ha group⟩
  · refine answer_of_records_eq_map hplan hd ?_
    rw [hread.typed.records_of_grouped ht, Plan.matching_eq, Transformation.groups_eq]

/-- Three rooms in two buildings. -/
def rooms : Context :=
  { datasets := [("rooms", ⟨"rooms", .rooms, [[.text "Woodward"], [.text "Hebb"], [.text "Woodward"]]⟩)]
    cap := 2 }

def roomsByBuilding : Tree :=
  .object
    [("WHERE", .object []),
      ("OPTIONS", .object [("COLUMNS", .array [.text "rooms_fullname", .text "names"]), ("ORDER", .text "names")]),
      ("TRANSFORMATIONS", .object
        [("GROUP", .array [.text "rooms_fullname"]),
          ("APPLY", .array [.object [("names", .object [("COUNT", .text "rooms_fullname")])]])])]

def roomsPlan : Plan where
  filter := none
  options :=
    { datasetId := "rooms"
      columns := [.field ⟨"rooms", "fullname", 0, .text⟩, .apply "names"]
      order := some ⟨.up, ["names"]⟩ }
  transformation := some
    { group := [⟨"rooms", "fullname", 0, .text⟩]
      apply := [⟨"names", .count, ⟨"rooms", "fullname", 0, .text⟩⟩] }

/-- What is counted against the cap are the groups, not the rows. -/
theorem answer_grouped_rooms :
    rooms.plan roomsByBuilding = .ok roomsPlan ∧ (roomsByBuilding.get? "TRANSFORMATIONS").isSome = true ∧
      ∃ records, rooms.answer roomsByBuilding = .ok records ∧ records.length = 2 := by
  have hplan : rooms.plan roomsByBuilding = .ok roomsPlan := rfl
  refine ⟨hplan, rfl, ?_⟩
  obtain ⟨d, t, hd, ht, -, -, -, -, -, -, -, hanswer⟩ := answer_grouped hplan rfl
  obtain rfl := Option.some.inj hd
  obtain rfl := Option.some.inj ht
  obtain ⟨records, hrecords, hlength, -⟩ := hanswer
  exact ⟨records, hrecords, hlength⟩

end Context

end CampusQuery
