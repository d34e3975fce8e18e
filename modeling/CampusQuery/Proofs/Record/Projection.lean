import CampusQuery.Proofs.Attribute.Resolution
import CampusQuery.Proofs.Entries
import CampusQuery.Record

/-! What a row shows of itself under the keys of columns. -/

namespace CampusQuery

/-- The cell under the field that a key names. -/
def Row.cell? (row : Row) (id : String) (kind : Kind) (key : String) : Option Cell :=
  (kind.fields.findIdx? fun f => id ++ "_" ++ f.name == key).bind (row[·]?)

/-- The cells under the keys, each key once. A key whose cell the row lacks is left out. -/
def Row.projection (row : Row) (id : String) (kind : Kind) (keys : List String) : Record :=
  keys.eraseDups.filterMap fun key => (row.cell? id kind key).map (key, ·)

theorem Attribute.IsOf.cell? {a : Attribute} {kind : Kind} (h : a.IsOf kind) (row : Row) :
    row.cell? a.datasetId kind a.key = row[a.index]? := by
  have hindex : kind.index? a.field = some a.index := Kind.index?_eq_some h
  unfold Row.cell? Attribute.key
  have hsame : (fun f : Field => a.datasetId ++ "_" ++ f.name == a.datasetId ++ "_" ++ a.field) =
      fun f => f.name == a.field := by
    funext f
    rw [Bool.eq_iff_iff, beq_iff_eq, beq_iff_eq, ← String.toList_inj, ← String.toList_inj]
    simp
  rw [hsame]
  unfold Kind.index? at hindex
  rw [hindex]
  rfl

theorem Record.ofRow_eq_projection {attributes : List Attribute} {id : String} {kind : Kind}
    (hof : ∀ a ∈ attributes, a.IsOf kind) (hid : ∀ a ∈ attributes, a.datasetId = id) (row : Row) :
    Record.ofRow attributes row = row.projection id kind (attributes.map Attribute.key) := by
  unfold Record.ofRow Row.projection
  rw [← Entries.pushAll_filterMap, List.filterMap_map]
  refine congrArg _ (List.filterMap_congr fun a ha => ?_)
  have hcell := (hof a ha).cell? row
  rw [hid a ha] at hcell
  simp only [Function.comp_apply, hcell]

end CampusQuery
