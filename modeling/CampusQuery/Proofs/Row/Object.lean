import CampusQuery.Proofs.Attribute.Resolution
import CampusQuery.Proofs.Entries

/-! The object of a row: under the name of each field stands the cell at the field's place. -/

namespace CampusQuery.Row

variable {row : Row} {kind : Kind}

theorem map_fst_zip_sublist {α β : Type} (xs : List α) (ys : List β) :
    List.Sublist ((xs.zip ys).map Prod.fst) xs := by
  induction xs generalizing ys with
  | nil => exact List.nil_sublist _
  | cons x xs ih =>
    cases ys with
    | nil => exact List.nil_sublist _
    | cons y ys => exact (ih ys).cons_cons x

theorem keys_zip (row : Row) (kind : Kind) :
    Entries.keys ((kind.fields.zip row).map fun (field, cell) => (field.name, cell.toTree)) =
      ((kind.fields.zip row).map Prod.fst).map Field.name := by
  simp only [Entries.keys, List.map_map]
  rfl

theorem toTree_eq (row : Row) (kind : Kind) :
    row.toTree kind = .object ((kind.fields.zip row).map fun (field, cell) => (field.name, cell.toTree)) := by
  refine congrArg Tree.object (Entries.ofList_of_nodup ?_)
  rw [keys_zip]
  exact kind.fields_nodup.sublist ((map_fst_zip_sublist ..).map _)

theorem get?_toTree {a : Attribute} (ha : a.IsOf kind) {c : Cell} (hc : row[a.index]? = some c) :
    (row.toTree kind).get? a.field = some c.toTree := by
  have hnodup : ((row.toTree kind).object?.getD []).keys.Nodup := Entries.nodup_keys_ofList _
  rw [toTree_eq] at hnodup ⊢
  have hzip : (⟨a.field, a.type⟩, c) ∈ kind.fields.zip row := by
    refine List.mem_of_getElem? (i := a.index) ?_
    rw [List.getElem?_zip_eq_some]
    exact ⟨ha, hc⟩
  have hmem := List.mem_map_of_mem (f := fun (field, cell) => (field.name, cell.toTree)) hzip
  exact Entries.lookup_of_mem hnodup hmem

end CampusQuery.Row
