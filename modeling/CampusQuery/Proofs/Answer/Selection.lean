import CampusQuery.Proofs.Answer.Shape
import CampusQuery.Proofs.Attribute.Addressing
import CampusQuery.Proofs.Grammar.Language
import CampusQuery.Proofs.Row.Ingestion

/-! What is added is what is asked for. Main statement: once the items of an array have been added, a query for
any of their fields is answered with what those items that describe a row have under these fields, in the order
of the array. -/

namespace CampusQuery

/-- The query for all that there is under some keys. -/
def Tree.selecting (keys : List String) : Tree :=
  .object [("WHERE", .object []), ("OPTIONS", .object [("COLUMNS", .array (keys.map .text))])]

def Plan.selecting (id : String) (attributes : List Attribute) : Plan where
  filter := none
  options := { datasetId := id, columns := attributes.map .field, order := none }
  transformation := none

theorem Grammar.checkQuery_selecting {keys : List String} (hne : keys ≠ []) :
    checkQuery (Tree.selecting keys) = .ok () := by
  have hcolumns : check "COLUMNS" (.array (keys.map .text)) = .ok () :=
    check_columns_iff.2 ⟨_, rfl, mt List.map_eq_nil_iff.1 hne⟩
  have hoptions : check "OPTIONS" (.object [("COLUMNS", .array (keys.map .text))]) = .ok () :=
    check_options_iff.2 ⟨_, rfl, by simp, ⟨_, rfl, hcolumns⟩, nofun, by simp, List.nodup_singleton _⟩
  have hwhere : check "WHERE" (.object []) = .ok () := check_where_iff.2 .empty
  exact checkQuery_eq_ok_iff.2
    ⟨_, rfl, ⟨_, rfl, hwhere⟩, ⟨_, rfl, hoptions⟩, nofun, by simp, by simp [Entries.keys]⟩

namespace Context

variable {ctx : Context} {id : String} {d : Dataset} {attributes : List Attribute}

theorem plan_selecting (hd : ctx.dataset? id = some d) (hne : attributes ≠ [])
    (hlies : ∀ a ∈ attributes, a.LiesIn ⟨id, d.kind⟩) :
    ctx.plan (Tree.selecting (attributes.map Attribute.key)) = .ok (.selecting id attributes) := by
  have hkind : ctx.kinds.lookup id = some d.kind := by rw [lookup_kinds, hd]; rfl
  have hkeys : (Plan.selecting id attributes).options.keys = attributes.map Attribute.key := List.map_map
  have hattributes : (Plan.selecting id attributes).options.attributes = attributes := by
    simp [Options.attributes, Plan.selecting, List.filterMap_map, Function.comp_def, Column.field?]
  refine plan_eq_ok_iff.2 ⟨Grammar.checkQuery_selecting (mt List.map_eq_nil_iff.1 hne), ?_⟩
  refine Plan.ofTree_eq_ok_iff.2
    ⟨_, _, none, d.kind, .object [], rfl, rfl, rfl, ?_, hkind, rfl, rfl, rfl⟩
  refine Options.ofTree_eq_ok_iff.2 ⟨by rw [hkeys]; rfl, fun c hc => ?_, ?_, fun a ha => ?_, rfl⟩
  · obtain ⟨a, ha, rfl⟩ := List.mem_map.1 hc
    have hlie := hlies a ha
    exact ⟨d.kind, hlie.datasetId ▸ hkind, hlie.isOf, hlie.isId⟩
  · rw [hattributes]
    exact fun hnil => absurd hnil hne
  · rw [hattributes] at ha
    exact (hlies a ha).datasetId

theorem answer_selecting (hd : ctx.dataset? id = some d) (hne : attributes ≠ [])
    (hlies : ∀ a ∈ attributes, a.LiesIn ⟨id, d.kind⟩) (hcap : d.rows.length ≤ ctx.cap) :
    ctx.answer (Tree.selecting (attributes.map Attribute.key)) =
      .ok (d.rows.map (Row.projection · id d.kind (attributes.map Attribute.key))) := by
  have hplan := plan_selecting hd hne hlies
  obtain ⟨d', hd', hread⟩ := exists_readOff hplan
  obtain rfl := Option.some.inj (hd.symm.trans hd')
  have hkeys : (Plan.selecting id attributes).options.keys = attributes.map Attribute.key := List.map_map
  have hrecords := hread.typed.records_of_ungrouped rfl d.rows
  rw [hkeys] at hrecords
  have hanswer := answer_of_records_eq_map hplan hd hrecords
  rw [if_neg (not_lt.2 hcap)] at hanswer
  obtain ⟨records, hrecords, -, -, harranged⟩ := hanswer
  exact hrecords.trans (congrArg Except.ok harranged)

end Context

/-- A row shows what its item has under the fields. -/
theorem Row.exists_toTree_projection {kind : Kind} {item : Tree} {row : Row} (h : ofTree kind item = .ok row)
    (id : String) {fs : List Field} (hfs : ∀ f ∈ fs, f ∈ kind.fields) :
    ∃ entries, (row.projection id kind (fs.map (·.key id))).toTree = .object entries ∧
      Entries.keys entries = (fs.map (·.key id)).eraseDups ∧
      ∀ f ∈ fs, ∃ value, item.get? f.name = some value ∧ entries.lookup (f.key id) = some value := by
  have hcell : ∀ f ∈ fs, ∃ c : Cell, row.cell? id kind (f.key id) = some c ∧ item.get? f.name = some c.toTree := by
    intro f hf
    have hof : (f.attributeOf id kind).IsOf kind := Field.isOf_attributeOf (hfs f hf)
    obtain ⟨c, hc, hvalue, -⟩ := get?_of_ofTree h hof
    exact ⟨c, (hof.cell? row).trans hc, hvalue⟩
  have hsome : ∀ key ∈ fs.map (·.key id), (row.cell? id kind key).isSome = true := by
    intro key hkey
    obtain ⟨f, hf, rfl⟩ := List.mem_map.1 hkey
    obtain ⟨c, hc, -⟩ := hcell f hf
    exact Option.isSome_iff_exists.2 ⟨c, hc⟩
  obtain ⟨entries, htree, hkeys, hlookup⟩ := Record.exists_toTree_under hsome
  refine ⟨entries, htree, hkeys, fun f hf => ?_⟩
  obtain ⟨c, hc, hvalue⟩ := hcell f hf
  refine ⟨c.toTree, hvalue, ?_⟩
  rw [hlookup _ (List.mem_map_of_mem hf), hc]
  rfl

namespace Registry

theorem Sound.query_selecting {r : Registry} (h : r.Sound) {id : String} {d : Dataset}
    (hd : r.store.get? id = some d) (hcap : d.rows.length ≤ r.cap) {fs : List Field} (hne : fs ≠ [])
    (hfs : ∀ f ∈ fs, f ∈ d.kind.fields) :
    (r.perform (Request.query (Tree.selecting (fs.map (·.key id))))).1 =
      .ok (d.rows.map fun row => (row.projection id d.kind (fs.map (·.key id))).toTree) := by
  obtain ⟨rfl, hsound⟩ := h.kept_of_get? hd
  have hid : IsId d.id := Dataset.isId_of_checkId hsound.id_checked
  have hkeys : (fs.map (Field.attributeOf d.id d.kind)).map Attribute.key = fs.map (·.key d.id) := List.map_map
  have hlies : ∀ a ∈ fs.map (Field.attributeOf d.id d.kind), a.LiesIn ⟨d.id, d.kind⟩ := by
    intro a ha
    obtain ⟨f, hf, rfl⟩ := List.mem_map.1 ha
    exact ⟨Field.isOf_attributeOf (hfs f hf), rfl, hid⟩
  have hanswer : r.context.answer (Tree.selecting (fs.map (·.key d.id))) =
      .ok (d.rows.map (Row.projection · d.id d.kind (fs.map (·.key d.id)))) := by
    rw [h.context_eq, ← hkeys]
    exact Context.answer_selecting hd (mt List.map_eq_nil_iff.1 hne) hlies hcap
  exact query_eq_ok_iff.2 ⟨_, hanswer, List.map_map⟩

/-- An object without all fields, or with a value in one of them that does not suit it, is left out. -/
theorem query_added (cap : ℕ) (commands : List Command) {id : String} {kind : Kind} {items : List Tree}
    {ids : List String} {fs : List Field}
    (hadd : ((({ cap } : Registry).after commands).perform (Request.addTree id kind (.array items))).1 = .ok ids)
    (hne : fs ≠ []) (hfs : ∀ f ∈ fs, f ∈ kind.fields)
    (hcap : (items.filter (·.describesRow kind)).length ≤ cap) :
    let r := ((({ cap } : Registry).after commands).perform (Request.addTree id kind (.array items))).2
    ∃ trees, (r.perform (Request.query (Tree.selecting (fs.map (·.key id))))).1 = .ok trees ∧
      List.Forall₂
        (fun item t => ∃ entries, t = .object entries ∧ Entries.keys entries = (fs.map (·.key id)).eraseDups ∧
          ∀ f ∈ fs, ∃ value, item.get? f.name = some value ∧ entries.lookup (f.key id) = some value)
        (items.filter (·.describesRow kind)) trees := by
  intro r
  have hbefore : (({ cap } : Registry).after commands).Sound := (sound_of_new cap).after commands
  have hcapBefore : (({ cap } : Registry).after commands).cap = cap := (sound_of_new cap).cap_after commands
  obtain ⟨hleads, hsound⟩ := hbefore.step (.addTree id kind (.array items))
  rw [Command.request, perform_map, hadd] at hleads
  rw [Command.request, perform_map] at hsound
  obtain ⟨items', heq, hadded⟩ := hleads
  obtain rfl := Tree.array.inj heq
  have hread := Row.forall₂_filterMap_ofTree kind items
  have hstored := hadded.get?_after id
  rw [if_pos rfl] at hstored
  have hfits : (items.filterMap fun t => (Row.ofTree kind t).toOption).length ≤ r.cap := by
    rw [← hread.length_eq, hadded.cap_after.trans hcapBefore]
    exact hcap
  refine ⟨_, hsound.query_selecting hstored hfits hne hfs, ?_⟩
  rw [List.forall₂_map_right_iff]
  exact hread.imp fun item row hrow => Row.exists_toTree_projection hrow id hfs

def room (name : String) (seats : Tree) : Tree :=
  .object
    [("seats", seats), ("name", .text name), ("fullname", .text "Hebb"), ("shortname", .text "HEBB"),
      ("number", .text "100"), ("address", .text "2045 East Mall"), ("lat", .number .zero),
      ("lon", .number .zero), ("type", .text "Tiered"), ("furniture", .text "Fixed"), ("href", .text "")]

/-- Two rooms among what is none. -/
def rooms : List Tree :=
  [room "HEBB_100" (.number .zero), .null, room "HEBB_10" (.number (.infinite false)),
    room "HEBB_12" (.text "0"), room "HEBB_13" (.number .negativeZero)]

theorem query_added_rooms :
    let before := ({ cap := 2 } : Registry).after [.remove "rooms"]
    let added := before.perform (Request.addTree "rooms" .rooms (.array rooms))
    added.1 = .ok ["rooms"] ∧ (rooms.filter (·.describesRow .rooms)).length = 2 ∧
      ∃ trees, (added.2.perform (Request.query (Tree.selecting ["rooms_seats", "rooms_name"]))).1 = .ok trees ∧
        trees.length = 2 := by
  intro before added
  have hadd : added.1 = .ok ["rooms"] := rfl
  have hcount : (rooms.filter (·.describesRow .rooms)).length = 2 := rfl
  obtain ⟨trees, htrees, hitems⟩ := query_added 2 [.remove "rooms"] hadd
    (List.cons_ne_nil ⟨"seats", .number⟩ [⟨"name", .text⟩]) (by decide) hcount.le
  exact ⟨hadd, hcount, trees, htrees, hitems.length_eq.symm.trans hcount⟩

end Registry

end CampusQuery
