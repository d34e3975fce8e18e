import CampusQuery.Proofs.Answer.Grouped
import CampusQuery.Proofs.Grouping.Key
import CampusQuery.Proofs.Reduction.Values
import CampusQuery.Proofs.Registry.Run

/-! The shape of answers. Main statement: each object that a registry answers with has exactly the keys of
COLUMNS, and a value of the right type under each of them; nothing is left out for want of a value. -/

namespace CampusQuery

/-- The type of what stands under a key: the declared one of a field, and number for an apply name. -/
inductive ColumnType (scope : Scope) : String → FieldType → Prop
  | field {f : Field} (h : f ∈ scope.kind.fields) : ColumnType scope (scope.datasetId ++ "_" ++ f.name) f.type
  | apply {name : String} (h : isApplyName name = true) : ColumnType scope name .number

variable {scope : Scope}

theorem Attribute.LiesIn.isSome_cell {a : Attribute} (h : a.LiesIn scope) {row : Row}
    (hrow : row.conforms scope.kind = true) : (row[a.index]?).isSome = true := by
  obtain ⟨c, hc, -⟩ := Row.exists_cell hrow h.isOf
  rw [hc]
  rfl

theorem Attribute.LiesIn.columnType {a : Attribute} (h : a.LiesIn scope) : ColumnType scope a.key a.type := by
  unfold Attribute.key
  rw [h.datasetId]
  exact .field h.isOf.mem

theorem Attribute.LiesIn.exists_cell {a : Attribute} (h : a.LiesIn scope) {row : Row}
    (hrow : row.conforms scope.kind = true) :
    ∃ c, row.cell? scope.datasetId scope.kind a.key = some c ∧ ColumnType scope a.key c.type := by
  obtain ⟨c, hc, htype⟩ := Row.exists_cell hrow h.isOf
  refine ⟨c, ?_, htype ▸ h.columnType⟩
  rw [← h.datasetId, h.isOf.cell?, hc]

namespace Record

/-- The record has a cell of the right type under each key. -/
structure HasShape (record : Record) (scope : Scope) (keys : List String) : Prop where
  keys : Entries.keys record = keys.eraseDups
  typed : ∀ key c, (key, c) ∈ record → ColumnType scope key c.type

theorem hasShape_under {keys : List String} {cell? : String → Option Cell}
    (h : ∀ key ∈ keys, ∃ c, cell? key = some c ∧ ColumnType scope key c.type) :
    (under keys cell?).HasShape scope keys := by
  refine ⟨keys_under fun key hkey => ?_, fun key c hmem => ?_⟩
  · obtain ⟨c, hc, -⟩ := h key hkey
    rw [hc]
    rfl
  · obtain ⟨hkey, hc⟩ := mem_under_iff.1 hmem
    obtain ⟨c', hc', htype⟩ := h key hkey
    obtain rfl := Option.some.inj (hc.symm.trans hc')
    exact htype

/-- The object of a record has the record's shape. -/
theorem HasShape.exists_toTree {record : Record} {keys : List String} (h : record.HasShape scope keys)
    (hnodup : (Entries.keys record).Nodup) :
    ∃ entries, record.toTree = .object entries ∧ Entries.keys entries = keys.eraseDups ∧
      ∀ key value, (key, value) ∈ entries → ∃ c : Cell, value = c.toTree ∧ ColumnType scope key c.type := by
  refine ⟨_, toTree_of_nodup hnodup, by rw [keys_map_toTree, h.keys], fun key value hvalue => ?_⟩
  obtain ⟨⟨name, c⟩, hc, heq⟩ := List.mem_map.1 hvalue
  obtain ⟨rfl, rfl⟩ := Prod.mk.inj heq
  exact ⟨c, rfl, h.typed name c hc⟩

end Record

namespace Transformation

theorem isGroupOf_of_mem_groups {t : Transformation} {kind : Kind} {rows group : List Row}
    (hrows : ∀ row ∈ rows, row.conforms kind = true) (h : group ∈ t.groups rows) : IsGroupOf group kind := by
  rw [groups_eq] at h
  obtain ⟨k, hk, rfl⟩ := List.mem_map.1 h
  obtain ⟨row, hrow, hkey⟩ := List.mem_map.1 (List.mem_eraseDups.1 hk)
  refine ⟨List.ne_nil_of_mem (List.mem_filter.2 ⟨hrow, by simpa using hkey⟩), fun row hmem => ?_⟩
  exact hrows row (List.mem_filter.1 hmem).1

/-- A group shows a value of the right type in each column that there is for it. -/
theorem Fits.exists_cell {t : Transformation} (h : t.Fits scope) {c : Column} (hc : t.Has c) {group : List Row}
    (hgroup : IsGroupOf group scope.kind) :
    ∃ cell, t.cell? scope.datasetId scope.kind group c.key = some cell ∧ ColumnType scope c.key cell.type := by
  cases c with
  | field a =>
    obtain ⟨row, rest, hcons⟩ := List.exists_cons_of_ne_nil hgroup.ne_nil
    have hlies := h.group a hc
    obtain ⟨cell, hcell, htype⟩ := hlies.exists_cell (hgroup.conforms row (by simp [hcons]))
    refine ⟨cell, ?_, htype⟩
    rw [Column.key, h.cell?_key hc, hcons, ← hcell, ← hlies.datasetId, hlies.isOf.cell?]
    rfl
  | apply name =>
    obtain ⟨a, ha, rfl⟩ := hc
    obtain ⟨x, hx⟩ := ((h.apply a ha).completeOn hgroup).value
    refine ⟨.number x, ?_, .apply (h.apply a ha).name⟩
    rw [Column.key, h.cell?_name ha, hx]

end Transformation

namespace Plan

variable {p : Plan} {kind : Kind} {rows : List Row}

theorem nodup_keys_of_mem_records {record : Record} (h : record ∈ p.records rows) :
    (Entries.keys record).Nodup := by
  unfold records at h
  split at h
  all_goals
    obtain ⟨_, -, rfl⟩ := List.mem_map.1 h
    exact Entries.nodup_keys_pushAll _

theorem Typed.hasShape (h : p.Typed kind) (hrows : ∀ row ∈ rows, row.conforms kind = true) {record : Record}
    (hrecord : record ∈ p.records rows) : record.HasShape (p.scope kind) p.options.keys := by
  cases ht : p.transformation with
  | none =>
    rw [h.records_of_ungrouped ht] at hrecord
    obtain ⟨row, hrow, rfl⟩ := List.mem_map.1 hrecord
    refine Record.hasShape_under fun key hkey => ?_
    rw [h.keys_of_ungrouped ht] at hkey
    obtain ⟨a, ha, rfl⟩ := List.mem_map.1 hkey
    exact (h.field a (Options.mem_attributes_iff.1 ha)).exists_cell (hrows row hrow)
  | some t =>
    obtain ⟨hfits, hhas⟩ := h.transformation t ht
    rw [h.records_of_grouped ht] at hrecord
    obtain ⟨group, hgroup, rfl⟩ := List.mem_map.1 hrecord
    refine Record.hasShape_under fun key hkey => ?_
    obtain ⟨c, hc, rfl⟩ := List.mem_map.1 hkey
    exact hfits.exists_cell (hhas c hc) (Transformation.isGroupOf_of_mem_groups hrows hgroup)

/-- Wherever a value might be left out on the way from rows to ordered records, it is there. -/
structure CompleteOn (p : Plan) (rows : List Row) : Prop where
  column : ∀ a ∈ p.options.attributes, ∀ row ∈ rows, (row[a.index]?).isSome = true
  ungrouped : p.transformation = none → p.options.applyNames = []
  applied : ∀ t, p.transformation = some t → ∀ name ∈ p.options.applyNames, (t.application? name).isSome = true
  group : ∀ t, p.transformation = some t → ∀ group ∈ t.groups rows,
    group ≠ [] ∧ (∀ a ∈ t.group, ∀ row ∈ group, (row[a.index]?).isSome = true) ∧
      ∀ a ∈ t.apply, a.CompleteOn group
  order : ∀ o, p.options.order = some o →
    ∀ key ∈ o.keys, ∀ record ∈ p.records rows, (record.lookup key).isSome = true

theorem Typed.completeOn (h : p.Typed kind) (hrows : ∀ row ∈ rows, row.conforms kind = true) :
    p.CompleteOn rows := by
  refine ⟨fun a ha row hrow => ?_, fun hnone => ?_, fun t ht name hname => ?_, fun t ht group hgroup => ?_,
    fun o ho key hkey record hrecord => ?_⟩
  · exact (h.field a (Options.mem_attributes_iff.1 ha)).isSome_cell (hrows row hrow)
  · refine List.eq_nil_iff_forall_not_mem.2 fun name hname => ?_
    have htransformed := (h.applied name (Options.mem_applyNames_iff.1 hname)).2
    rw [hnone] at htransformed
    cases htransformed
  · obtain ⟨hfits, hhas⟩ := h.transformation t ht
    obtain ⟨a, ha, hsame⟩ := hhas _ (Options.mem_applyNames_iff.1 hname)
    rw [hfits.application?_eq_some_iff.2 ⟨ha, hsame⟩]
    rfl
  · have hfits := (h.transformation t ht).1
    have hof := Transformation.isGroupOf_of_mem_groups hrows hgroup
    refine ⟨hof.ne_nil, fun a ha row hrow => ?_, fun a ha => (hfits.apply a ha).completeOn hof⟩
    exact (hfits.group a ha).isSome_cell (hof.conforms row hrow)
  · rw [Entries.isSome_lookup_iff, (h.hasShape hrows hrecord).keys, List.mem_eraseDups]
    exact h.order o ho key hkey

end Plan

namespace Registry

theorem query_eq_ok_iff {r : Registry} {query : Tree} {trees : List Tree} :
    (r.perform (Request.query query)).1 = .ok trees ↔
      ∃ records, r.context.answer query = .ok records ∧ records.map Record.toTree = trees :=
  map_eq_ok_iff

/-- An answer comes of a plan for rows that fit, and each object in it is one of the plan's records. -/
theorem Sound.exists_readOff_of_query {r : Registry} (h : r.Sound) {query : Tree} {trees : List Tree}
    (hquery : (r.perform (Request.query query)).1 = .ok trees) :
    ∃ p d, r.context.plan query = .ok p ∧ r.store.get? p.options.datasetId = some d ∧ p.ReadOff query d.kind ∧
      (∀ row ∈ p.matching d, row.conforms d.kind = true) ∧
      ∀ t ∈ trees, ∃ record ∈ p.records (p.matching d), t = record.toTree := by
  obtain ⟨records, hrecords, rfl⟩ := query_eq_ok_iff.1 hquery
  obtain ⟨p, hplan, hp⟩ := Context.answer_eq_ok_iff.1 hrecords
  obtain ⟨d, hd, hread⟩ := Context.exists_readOff hplan
  have hget : r.store.get? p.options.datasetId = some d := by
    rw [h.context_eq] at hd
    exact hd
  refine ⟨p, d, hplan, hget, hread, fun row hrow => ?_, fun t ht => ?_⟩
  · rw [Plan.matching_eq] at hrow
    exact (h.kept_of_get? hget).2.rows_conform row (List.mem_filter.1 hrow).1
  · obtain ⟨record, hmem, rfl⟩ := List.mem_map.1 ht
    rw [Plan.eq_arrange_of_answer hd hp] at hmem
    exact ⟨record, (Context.arranged_of_plan hplan _).perm.mem_iff.1 hmem, rfl⟩

/-- Whatever has been done with a registry, it answers with complete objects. -/
theorem query_shape (cap : ℕ) (commands : List Command) {query : Tree} {trees : List Tree}
    (h : ((({ cap } : Registry).after commands).perform (Request.query query)).1 = .ok trees) :
    let r := ({ cap } : Registry).after commands
    ∃ p d, r.context.plan query = .ok p ∧ r.store.get? p.options.datasetId = some d ∧
      query.columns? = some (.array (p.options.keys.map .text)) ∧
      (∀ t ∈ trees, ∃ entries, t = .object entries ∧ Entries.keys entries = p.options.keys.eraseDups ∧
        ∀ key value, (key, value) ∈ entries →
          ∃ c : Cell, value = c.toTree ∧ ColumnType (p.scope d.kind) key c.type) ∧
      p.CompleteOn (p.matching d) := by
  intro r
  have hsound : r.Sound := (sound_of_new cap).after commands
  obtain ⟨p, d, hplan, hget, hread, hfit, htrees⟩ := hsound.exists_readOff_of_query h
  refine ⟨p, d, hplan, hget, hread.columns, fun t ht => ?_, hread.typed.completeOn hfit⟩
  obtain ⟨record, hrecord, rfl⟩ := htrees t ht
  exact (hread.typed.hasShape hfit hrecord).exists_toTree (Plan.nodup_keys_of_mem_records hrecord)

def courses : Dataset where
  id := "courses"
  kind := .sections
  rows := [Transformation.course "cpsc" "310" (.ofNat 75), Transformation.course "math" "200" (.ofNat 60),
    Transformation.course "cpsc" "221" (.ofNat 70)]

def meansByDept : Tree :=
  .object
    [("WHERE", .object []),
      ("OPTIONS", .object [("COLUMNS", .array [.text "courses_dept", .text "mean"]), ("ORDER", .text "mean")]),
      ("TRANSFORMATIONS", .object
        [("GROUP", .array [.text "courses_dept"]),
          ("APPLY", .array [.object [("mean", .object [("AVG", .text "courses_avg")])]])])]

def meansPlan : Plan where
  filter := none
  options :=
    { datasetId := "courses"
      columns := [.field ⟨"courses", "dept", 0, .text⟩, .apply "mean"]
      order := some ⟨.up, ["mean"]⟩ }
  transformation := some
    { group := [⟨"courses", "dept", 0, .text⟩]
      apply := [⟨"mean", .avg, ⟨"courses", "avg", 2, .number⟩⟩] }

theorem query_shape_courses :
    ∃ trees, ((({ cap := 2 } : Registry).after [.add courses]).perform (Request.query meansByDept)).1 = .ok trees ∧
      trees.length = 2 ∧
      ∀ t ∈ trees, ∃ entries, t = .object entries ∧ Entries.keys entries = ["courses_dept", "mean"] := by
  have hplan : (({ cap := 2 } : Registry).after [.add courses]).context.plan meansByDept = .ok meansPlan := rfl
  obtain ⟨d, hd, hread⟩ := Context.exists_readOff hplan
  obtain rfl : courses = d := Option.some.inj hd
  have hanswer := Context.answer_of_records_eq_map hplan hd (hread.typed.records_of_grouped rfl _)
  rw [Transformation.groups_eq] at hanswer
  obtain ⟨records, hrecords, hlength, -⟩ := hanswer
  have hquery := query_eq_ok_iff.2 ⟨records, hrecords, rfl⟩
  refine ⟨_, hquery, by rw [List.length_map, hlength]; rfl, fun t ht => ?_⟩
  obtain ⟨p, d, hp, -, -, hshape, -⟩ := query_shape 2 [.add courses] hquery
  obtain rfl := Except.ok.inj (hplan.symm.trans hp)
  obtain ⟨entries, rfl, hkeys, -⟩ := hshape t ht
  exact ⟨entries, rfl, hkeys⟩

end Registry

end CampusQuery
