import CampusQuery.Proofs.Row.Ingestion
import CampusQuery.Proofs.Row.Object

/-! Rows as objects. Main statement: an object is read as a row if it has each field of the kind, writing the row
gives back those fields of it, and a row that is written and read again is the same. -/

namespace CampusQuery

/-- An object with a finite number in each number field of the kind and a text in each text field. -/
def Tree.HoldsFields (kind : Kind) (t : Tree) : Prop :=
  ∃ entries, t = .object entries ∧ ∀ f ∈ kind.fields,
    match f.type with
    | .number => ∃ x : Double, entries.lookup f.name = some (.number x) ∧ x.isFinite = true
    | .text => ∃ s, entries.lookup f.name = some (.text s)

/-- The entries have the fields of the kind and no others, in their order, and in each what the tree has there. -/
structure Tree.IsExcerpt (t : Tree) (kind : Kind) (entries : Entries Tree) : Prop where
  keys : entries.keys = kind.fields.map Field.name
  lookup : ∀ f ∈ kind.fields, entries.lookup f.name = t.get? f.name

namespace Tree

theorem any_suits_iff {entries : Entries Tree} {f : Field} :
    (entries.lookup f.name).any (·.suits f.type) = true ↔
      match f.type with
      | .number => ∃ x : Double, entries.lookup f.name = some (.number x) ∧ x.isFinite = true
      | .text => ∃ s, entries.lookup f.name = some (.text s) := by
  cases entries.lookup f.name with
  | none => cases f.type <;> simp
  | some t => cases t <;> cases f.type <;> simp [suits]

theorem describesRow_iff_holdsFields {kind : Kind} {t : Tree} : t.describesRow kind = true ↔ t.HoldsFields kind := by
  unfold describesRow HoldsFields
  rw [List.all_eq_true]
  cases t with
  | object entries =>
    simp only [object.injEq, exists_eq_left', ← any_suits_iff]
    exact Iff.rfl
  | _ =>
    refine iff_of_false (fun h => ?_) fun ⟨_, h, _⟩ => nomatch h
    obtain ⟨f, hf⟩ := List.exists_mem_of_ne_nil _ kind.fields_ne_nil
    exact Bool.false_ne_true (h f hf)

instance (kind : Kind) (t : Tree) : Decidable (t.HoldsFields kind) := decidable_of_iff _ describesRow_iff_holdsFields

theorem decide_holdsFields (kind : Kind) (t : Tree) : decide (t.HoldsFields kind) = t.describesRow kind := by
  rw [Bool.eq_iff_iff, decide_eq_true_iff, describesRow_iff_holdsFields]

end Tree

namespace Row

variable {kind : Kind} {t : Tree} {row : Row}

theorem length_eq_of_conforms (h : row.conforms kind = true) : row.length = kind.fields.length := by
  have hlength := congrArg List.length (conforms_iff.1 h)
  rwa [List.length_map, List.length_map] at hlength

theorem conforms_of_ofTree (h : ofTree kind t = .ok row) : row.conforms kind = true := by
  rw [conforms_iff, eq_comm, ← List.forall₂_eq_eq_eq, List.forall₂_map_left_iff, List.forall₂_map_right_iff]
  refine (ofTree_eq_ok_iff.1 h).imp fun f c hcell => ?_
  obtain ⟨u, -, hread⟩ := hcell
  exact (Cell.ofTree_eq_ok_iff.1 hread).2.1.symm

theorem exists_isExcerpt_toTree (h : ofTree kind t = .ok row) :
    ∃ entries, row.toTree kind = .object entries ∧ t.IsExcerpt kind entries := by
  have hlength := length_eq_of_conforms (conforms_of_ofTree h)
  refine ⟨_, toTree_eq row kind, ?_, fun f hf => ?_⟩
  · rw [keys_zip, List.map_fst_zip hlength.ge]
  · obtain ⟨a, ha, -, hname, -⟩ := Attribute.exists_isOf "" hf
    obtain ⟨c, hc, hget, -⟩ := get?_of_ofTree h ha
    have hwritten := get?_toTree ha hc
    rw [toTree_eq, hname] at hwritten
    rw [← hname, hget, hname]
    exact hwritten

theorem ofTree_toTree (h : row.conforms kind = true) (hfinite : ∀ c ∈ row, c.isFinite = true) :
    ofTree kind (row.toTree kind) = .ok row := by
  rw [ofTree_eq_ok_iff, List.forall₂_iff_get]
  refine ⟨(length_eq_of_conforms h).symm, fun i hi hc => ?_⟩
  have hof : Attribute.IsOf ⟨"", kind.fields[i].name, i, kind.fields[i].type⟩ kind := List.getElem?_eq_getElem hi
  obtain ⟨c, hcell, htype⟩ := exists_cell h hof
  obtain ⟨_, rfl⟩ := List.getElem?_eq_some_iff.1 hcell
  exact ⟨_, get?_toTree hof hcell, Cell.ofTree_eq_ok_iff.2 ⟨rfl, htype, hfinite _ (List.getElem_mem hc)⟩⟩

/-- Reading takes just what holds the fields, as a row that fits and is written as an excerpt of it; it takes back
what writing makes of rows of finite numbers, and from an array it takes each item that it can take. -/
theorem ofTree_toTree_inverse (kind : Kind) :
    (∀ t, (∃ row, ofTree kind t = .ok row) ↔ t.HoldsFields kind) ∧
      (∀ t row, ofTree kind t = .ok row → row.conforms kind = true ∧
        ∃ entries, row.toTree kind = .object entries ∧ t.IsExcerpt kind entries) ∧
      (∀ row : Row, row.conforms kind = true → (∀ c ∈ row, c.isFinite = true) →
        ofTree kind (row.toTree kind) = .ok row) ∧
      ∀ items, ∃ rows skipped, manyOfTree kind (.array items) = .ok (rows, skipped) ∧
        List.Forall₂ (fun item row => ofTree kind item = .ok row) (items.filter (·.HoldsFields kind)) rows ∧
        rows.length + skipped = items.length := by
  refine ⟨fun t => ?_, fun t row h => ?_, fun row => ofTree_toTree, fun items => ?_⟩
  · rw [← describesRow_iff, Tree.describesRow_iff_holdsFields]
  · exact ⟨conforms_of_ofTree h, exists_isExcerpt_toTree h⟩
  · simp only [Tree.decide_holdsFields]
    exact ⟨_, _, rfl, ofTrees_fst kind items ▸ forall₂_filterMap_ofTree kind items, length_ofTrees kind items⟩

/-- The fields of a room in no particular order, and one that rooms do not have. -/
def pavilion : Tree :=
  .object [("seats", .number .zero), ("floor", .null), ("href", .text "dmp"), ("fullname", .text "Pavilion"),
    ("shortname", .text "DMP"), ("number", .text "110"), ("name", .text "DMP_110"), ("address", .text ""),
    ("lon", .number .negativeZero), ("lat", .number .zero), ("type", .text ""), ("furniture", .text "")]

def pavilionRow : Row :=
  [.text "Pavilion", .text "DMP", .text "110", .text "DMP_110", .text "", .number .zero, .number .negativeZero,
    .number .zero, .text "", .text "", .text "dmp"]

theorem ofTree_toTree_inverse_pavilion :
    ofTree .rooms pavilion = .ok pavilionRow ∧ pavilionRow.conforms .rooms = true ∧
      (∀ c ∈ pavilionRow, c.isFinite = true) ∧
      (∃ entries, pavilionRow.toTree .rooms = .object entries ∧ pavilion.IsExcerpt .rooms entries) ∧
      ofTree .rooms (pavilionRow.toTree .rooms) = .ok pavilionRow ∧ ¬(pavilionRow.toTree .rooms).HoldsFields .sections := by
  have hread : ofTree .rooms pavilion = .ok pavilionRow := rfl
  have hfinite : ∀ c ∈ pavilionRow, c.isFinite = true := by decide +kernel
  obtain ⟨-, hwritten, hback, -⟩ := ofTree_toTree_inverse .rooms
  obtain ⟨hconforms, hexcerpt⟩ := hwritten pavilion pavilionRow hread
  refine ⟨hread, hconforms, hfinite, hexcerpt, hback pavilionRow hconforms hfinite, ?_⟩
  rw [← (ofTree_toTree_inverse .sections).1]
  exact fun ⟨_, h⟩ => nomatch h

end Row

end CampusQuery
