import CampusQuery.Ingestion
import CampusQuery.Proofs.Attribute.Resolution

/-! Rows as they are read off trees. Main statement: of a list of items, those that have each field of the kind
are read, in their order, and each cell is what its item has under the name of the field. -/

namespace CampusQuery

/-- Whether the tree can stand in a field of the type. -/
def Tree.suits : Tree → FieldType → Bool
  | .number x, .number => x.isFinite
  | .text _, .text => true
  | _, _ => false

/-- Whether the tree is an object with something suitable in each field of the kind. -/
def Tree.describesRow (kind : Kind) (t : Tree) : Bool :=
  kind.fields.all fun f => (t.get? f.name).any (·.suits f.type)

namespace Cell

def isFinite : Cell → Bool
  | number x => x.isFinite
  | text _ => true

theorem ofTree_eq_ok_iff {type : FieldType} {t : Tree} {c : Cell} :
    ofTree type t = .ok c ↔ t = c.toTree ∧ c.type = type ∧ c.isFinite = true := by
  constructor
  · intro h
    unfold ofTree at h
    split at h
    · next x =>
      split at h
      · next hfinite =>
        obtain rfl := Except.ok.inj h
        exact ⟨rfl, rfl, hfinite⟩
      · cases h
    · obtain rfl := Except.ok.inj h
      exact ⟨rfl, rfl, rfl⟩
    · cases h
  · rintro ⟨rfl, rfl, hfinite⟩
    cases c with
    | number x => exact if_pos hfinite
    | text s => rfl

theorem suits_iff_exists_ofTree {type : FieldType} {t : Tree} :
    t.suits type = true ↔ ∃ c, ofTree type t = .ok c := by
  simp only [ofTree_eq_ok_iff]
  constructor
  · intro h
    unfold Tree.suits at h
    split at h
    · next x => exact ⟨.number x, rfl, rfl, h⟩
    · next s => exact ⟨.text s, rfl, rfl, rfl⟩
    · cases h
  · rintro ⟨c, rfl, rfl, hfinite⟩
    cases c with
    | number x => exact hfinite
    | text s => rfl

end Cell

theorem Field.cellOf_eq_ok_iff {entries : Entries Tree} {f : Field} {c : Cell} :
    f.cellOf entries = .ok c ↔ ∃ t, entries.lookup f.name = some t ∧ Cell.ofTree f.type t = .ok c := by
  unfold cellOf
  cases entries.lookup f.name with
  | none => exact ⟨nofun, nofun⟩
  | some t => simp

namespace Row

variable {kind : Kind} {t : Tree} {row : Row}

theorem ofTree_eq_ok_iff :
    ofTree kind t = .ok row ↔
      List.Forall₂ (fun f c => ∃ u, t.get? f.name = some u ∧ Cell.ofTree f.type u = .ok c) kind.fields row := by
  cases t with
  | object entries =>
    refine mapM_eq_ok_iff.trans ?_
    simp only [Field.cellOf_eq_ok_iff]
    exact Iff.rfl
  | _ =>
    refine ⟨nofun, fun h => ?_⟩
    obtain ⟨f, rest, hfields⟩ := List.exists_cons_of_ne_nil kind.fields_ne_nil
    rw [hfields] at h
    obtain ⟨c, -, ⟨u, hu, -⟩, -⟩ := List.forall₂_cons_left_iff.1 h
    cases hu

/-- A cell is what the object has under the name of its field. -/
theorem get?_of_ofTree (h : ofTree kind t = .ok row) {a : Attribute} (hof : a.IsOf kind) :
    ∃ c : Cell, row[a.index]? = some c ∧ t.get? a.field = some c.toTree ∧ c.isFinite = true := by
  have hall := ofTree_eq_ok_iff.1 h
  obtain ⟨hlt, hfield⟩ := List.getElem?_eq_some_iff.1 hof
  have hlt' : a.index < row.length := hall.length_eq ▸ hlt
  obtain ⟨u, hu, hread⟩ := hall.get hlt hlt'
  obtain ⟨rfl, -, hfinite⟩ := Cell.ofTree_eq_ok_iff.1 hread
  refine ⟨row[a.index], List.getElem?_eq_getElem hlt', ?_, hfinite⟩
  have hname : (kind.fields.get ⟨a.index, hlt⟩).name = a.field := congrArg Field.name hfield
  exact hname ▸ hu

theorem isFinite_of_ofTree (h : ofTree kind t = .ok row) : ∀ c ∈ row, c.isFinite = true := by
  refine forall_of_forall₂ ((ofTree_eq_ok_iff.1 h).flip.imp fun c f hcell => ?_)
  obtain ⟨u, -, hread⟩ := hcell
  exact (Cell.ofTree_eq_ok_iff.1 hread).2.2

theorem describesRow_iff : t.describesRow kind = true ↔ ∃ row, ofTree kind t = .ok row := by
  simp only [Tree.describesRow, List.all_eq_true, Option.any_eq_true, ofTree_eq_ok_iff,
    Cell.suits_iff_exists_ofTree]
  constructor
  · intro h
    refine exists_forall₂ fun f hf => ?_
    obtain ⟨u, hu, c, hc⟩ := h f hf
    exact ⟨c, u, hu, hc⟩
  · rintro ⟨row, h⟩
    refine forall_of_forall₂ (h.imp fun f c hcell => ?_)
    obtain ⟨u, hu, hc⟩ := hcell
    exact ⟨u, hu, c, hc⟩

theorem ofTrees_fst (kind : Kind) (items : List Tree) :
    (ofTrees kind items).1 = items.filterMap fun t => (ofTree kind t).toOption := by
  induction items with
  | nil => rfl
  | cons item items ih =>
    rw [ofTrees]
    cases hread : ofTree kind item with
    | error flaw => rw [List.filterMap_cons_none (by rw [hread]; rfl), ← ih]
    | ok row => rw [List.filterMap_cons_some (b := row) (by rw [hread]; rfl), ← ih]

/-- Each item is read as a row or counted. -/
theorem length_ofTrees (kind : Kind) (items : List Tree) :
    (ofTrees kind items).1.length + (ofTrees kind items).2 = items.length := by
  induction items with
  | nil => rfl
  | cons item items ih =>
    rw [ofTrees, List.length_cons, ← ih]
    cases ofTree kind item with
    | error flaw => exact (Nat.add_assoc _ _ 1).symm
    | ok row => exact Nat.succ_add _ _

theorem exists_ofTree_of_mem {items : List Tree} (h : row ∈ items.filterMap fun t => (ofTree kind t).toOption) :
    ∃ item ∈ items, ofTree kind item = .ok row := by
  obtain ⟨item, hitem, hrow⟩ := List.mem_filterMap.1 h
  cases hread : ofTree kind item with
  | error flaw =>
    rw [hread] at hrow
    cases hrow
  | ok other =>
    rw [hread] at hrow
    obtain rfl := Option.some.inj hrow
    exact ⟨item, hitem, hread⟩

/-- The rows that are taken in are those of the items that describe one. -/
theorem forall₂_filterMap_ofTree (kind : Kind) (items : List Tree) :
    List.Forall₂ (fun item row => ofTree kind item = .ok row) (items.filter (·.describesRow kind))
      (items.filterMap fun t => (ofTree kind t).toOption) := by
  induction items with
  | nil => exact .nil
  | cons item items ih =>
    cases hread : ofTree kind item with
    | error flaw =>
      have hnot : ¬item.describesRow kind = true := by
        rw [describesRow_iff, hread]
        exact nofun
      rwa [List.filter_cons_of_neg hnot, List.filterMap_cons_none (by rw [hread]; rfl)]
    | ok row =>
      rw [List.filter_cons_of_pos (describesRow_iff.2 ⟨row, hread⟩),
        List.filterMap_cons_some (b := row) (by rw [hread]; rfl)]
      exact .cons hread ih

end Row

end CampusQuery
