import CampusQuery.Grouping
import CampusQuery.Proofs.Plan.Reading
import CampusQuery.Proofs.Record.Projection
import CampusQuery.Proofs.Transformation.Reading

/-! What a group shows of itself under the keys of columns: reductions under apply names, and cells of its
first row under the keys of fields. -/

namespace CampusQuery

namespace Record

variable {keys : List String} {cell? : String → Option Cell}

/-- The cells that there are under the keys, each key once. -/
def under (keys : List String) (cell? : String → Option Cell) : Record :=
  keys.eraseDups.filterMap fun key => (cell? key).map (key, ·)

theorem pushAll_eq_under {β : Type} (key : β → String) (cell? : String → Option Cell) (xs : List β) :
    Entries.pushAll (xs.filterMap fun x => (cell? (key x)).map (key x, ·)) = under (xs.map key) cell? := by
  unfold under
  rw [← Entries.pushAll_filterMap, List.filterMap_map]
  rfl

theorem mem_under_iff {key : String} {c : Cell} :
    (key, c) ∈ under keys cell? ↔ key ∈ keys ∧ cell? key = some c := by
  simp only [under, List.mem_filterMap, List.mem_eraseDups, Option.map_eq_some_iff, Prod.mk.injEq]
  refine ⟨fun h => ?_, fun h => ?_⟩
  · obtain ⟨other, hother, c', hc', rfl, rfl⟩ := h
    exact ⟨hother, hc'⟩
  · exact ⟨key, h.1, c, h.2, rfl, rfl⟩

/-- Where there is a cell for each key, no key is left out. -/
theorem keys_under (h : ∀ key ∈ keys, (cell? key).isSome = true) :
    Entries.keys (under keys cell?) = keys.eraseDups := by
  have hall : ∀ key ∈ keys.eraseDups, (cell? key).isSome = true := fun key hkey =>
    h key (List.mem_eraseDups.1 hkey)
  unfold under Entries.keys
  generalize keys.eraseDups = names at hall ⊢
  induction names with
  | nil => rfl
  | cons name names ih =>
    obtain ⟨hname, hnames⟩ := List.forall_mem_cons.1 hall
    obtain ⟨c, hc⟩ := Option.isSome_iff_exists.1 hname
    rw [List.filterMap_cons_some (b := (name, c)) (by rw [hc]; rfl), List.map_cons, ih hnames]

theorem nodup_keys_under : (Entries.keys (under keys cell?)).Nodup := by
  have hpushed : Entries.pushAll (keys.filterMap fun key => (cell? key).map (key, ·)) = under keys cell? :=
    (pushAll_eq_under id cell? keys).trans (by rw [List.map_id])
  exact hpushed ▸ Entries.nodup_keys_pushAll _

theorem keys_map_toTree (record : Record) :
    Entries.keys (record.map fun (key, c) => (key, c.toTree)) = Entries.keys record := by
  unfold Entries.keys
  rw [List.map_map]
  rfl

theorem toTree_of_nodup {record : Record} (h : (Entries.keys record).Nodup) :
    record.toTree = .object (record.map fun (key, c) => (key, c.toTree)) := by
  refine congrArg Tree.object (Entries.ofList_of_nodup ?_)
  rwa [keys_map_toTree]

/-- The object of the cells under the keys. -/
theorem exists_toTree_under (h : ∀ key ∈ keys, (cell? key).isSome = true) :
    ∃ entries, (under keys cell?).toTree = .object entries ∧ Entries.keys entries = keys.eraseDups ∧
      ∀ key ∈ keys, entries.lookup key = (cell? key).map Cell.toTree := by
  refine ⟨_, toTree_of_nodup nodup_keys_under, by rw [keys_map_toTree, keys_under h], fun key hkey => ?_⟩
  obtain ⟨c, hc⟩ := Option.isSome_iff_exists.1 (h key hkey)
  have hlookup : (under keys cell?).lookup key = some c :=
    Entries.lookup_of_mem nodup_keys_under (mem_under_iff.2 ⟨hkey, hc⟩)
  rw [hc]
  exact (Entries.lookup_map Cell.toTree (under keys cell?) key).trans (by rw [hlookup])

end Record

namespace Transformation

/-- What a group shows under a key: the reduction that bears the name, or else the first row's cell. -/
def cell? (t : Transformation) (id : String) (kind : Kind) (group : List Row) (key : String) : Option Cell :=
  match t.application? key with
  | some a => a.reduction.ofGroup a.field.index group
  | none => group.head?.bind (·.cell? id kind key)

variable {t : Transformation} {scope : Scope}

/-- An application is the only one of its name. -/
theorem Fits.application?_eq_some_iff (h : t.Fits scope) {name : String} {a : Application} :
    t.application? name = some a ↔ a ∈ t.apply ∧ a.name = name := by
  have hfound : ∀ b, t.application? name = some b → b ∈ t.apply ∧ b.name = name := fun b hb =>
    ⟨List.mem_of_find?_eq_some hb, by simpa using List.find?_some hb⟩
  refine ⟨hfound a, fun ⟨ha, hname⟩ => ?_⟩
  have hsome : (t.application? name).isSome = true := List.find?_isSome.2 ⟨a, ha, by simpa using hname⟩
  obtain ⟨b, hb⟩ := Option.isSome_iff_exists.1 hsome
  obtain ⟨hmem, hname'⟩ := hfound b hb
  rw [hb, List.inj_on_of_nodup_map h.names_nodup hmem ha (hname'.trans hname.symm)]

theorem Fits.application?_key (h : t.Fits scope) (a : Attribute) : t.application? a.key = none := by
  refine Option.eq_none_iff_forall_ne_some.2 fun b hb => ?_
  obtain ⟨hmem, hname⟩ := h.application?_eq_some_iff.1 hb
  have hvalid := (h.apply b hmem).name
  rw [hname, a.not_isApplyName_key] at hvalid
  cases hvalid

theorem Fits.cell?_name (h : t.Fits scope) {a : Application} (ha : a ∈ t.apply) (group : List Row) :
    t.cell? scope.datasetId scope.kind group a.name = a.reduction.ofGroup a.field.index group := by
  unfold cell?
  rw [h.application?_eq_some_iff.2 ⟨ha, rfl⟩]

theorem Fits.cell?_key (h : t.Fits scope) {a : Attribute} (ha : a ∈ t.group) (group : List Row) :
    t.cell? scope.datasetId scope.kind group a.key = group.head?.bind (·[a.index]?) := by
  have hlies := h.group a ha
  have hcell (row : Row) : row.cell? scope.datasetId scope.kind a.key = row[a.index]? :=
    hlies.datasetId ▸ hlies.isOf.cell? row
  unfold cell?
  simp only [h.application?_key, hcell]

end Transformation

theorem Record.ofGroup_eq_under {t : Transformation} {scope : Scope} (h : t.Fits scope) {columns : List Column}
    (hcolumns : ∀ c ∈ columns, t.Has c) (group : List Row) :
    Record.ofGroup t columns group =
      Record.under (columns.map Column.key) (t.cell? scope.datasetId scope.kind group) := by
  unfold ofGroup
  rw [← Record.pushAll_eq_under]
  refine congrArg _ (List.filterMap_congr fun c hc => ?_)
  have hhas := hcolumns c hc
  cases c with
  | field a =>
    have hcell := h.cell?_key hhas group
    simp only [Column.key, hcell]
  | apply name =>
    obtain ⟨a, ha, rfl⟩ := hhas
    simp only [Column.key, h.cell?_name ha, h.application?_eq_some_iff.2 ⟨ha, rfl⟩]
    exact (Option.map_eq_bind ..).symm

end CampusQuery
