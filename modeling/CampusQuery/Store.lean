import CampusQuery.Dataset
import CampusQuery.Entries

/-! Datasets by ascending key. Main statement: placing a dataset and removing one leave the keys ascending. -/

namespace CampusQuery

namespace Entries

variable {es : Entries Dataset}

/-- Puts a dataset under a key, in place of the one that is there or before the first larger key. -/
def place (key : String) (d : Dataset) : Entries Dataset → Entries Dataset
  | [] => [(key, d)]
  | (k, e) :: rest =>
    if k < key then (k, e) :: place key d rest
    else if k = key then (key, d) :: rest
    else (key, d) :: (k, e) :: rest

theorem mem_place {key : String} {d : Dataset} {p : String × Dataset} (h : p ∈ es.place key d) :
    p = (key, d) ∨ p ∈ es := by
  induction es with
  | nil => exact .inl (List.mem_singleton.1 h)
  | cons e rest ih =>
    obtain ⟨k, e⟩ := e
    unfold place at h
    split at h
    · rcases List.mem_cons.1 h with rfl | h
      · exact .inr (List.mem_cons_self ..)
      · exact (ih h).imp_right (List.mem_cons_of_mem _)
    · split at h
      · exact (List.mem_cons.1 h).imp_right (List.mem_cons_of_mem _)
      · exact List.mem_cons.1 h

/-- The other keys keep their order, also when the key is put among them. -/
theorem place_ascending (key : String) (d : Dataset) (h : es.keys.Pairwise (· < ·)) :
    (es.place key d).keys.Pairwise (· < ·) := by
  induction es with
  | nil => exact List.pairwise_singleton ..
  | cons e rest ih =>
    obtain ⟨k, e⟩ := e
    obtain ⟨hfirst, hrest⟩ := List.pairwise_cons.1 h
    unfold place
    split
    · next hlt =>
      refine List.pairwise_cons.2 ⟨fun n hn => ?_, ih hrest⟩
      obtain ⟨p, hp, rfl⟩ := List.mem_map.1 hn
      rcases mem_place hp with rfl | hp
      · exact hlt
      · exact hfirst _ (List.mem_map_of_mem hp)
    · next hnot =>
      split
      · next heq =>
        subst heq
        exact h
      · next hne =>
        have hkey : key < k := Std.lt_of_le_of_ne (String.not_lt.1 hnot) (Ne.symm hne)
        refine List.pairwise_cons.2 ⟨fun n hn => ?_, h⟩
        rcases List.mem_cons.1 hn with rfl | hn
        · exact hkey
        · exact String.lt_trans hkey (hfirst n hn)

theorem remove_ascending (key : String) (h : es.keys.Pairwise (· < ·)) : (es.remove key).keys.Pairwise (· < ·) := by
  rw [keys_remove]
  exact h.sublist List.erase_sublist

end Entries

/-- Datasets by key. -/
@[ext]
structure Store where
  entries : Entries Dataset
  ascending : entries.keys.Pairwise (· < ·)

namespace Store

instance : EmptyCollection Store := ⟨⟨[], .nil⟩⟩

def get? (s : Store) (key : String) : Option Dataset := s.entries.lookup key

def contains (s : Store) (key : String) : Bool := (s.get? key).isSome

def ids (s : Store) : List String := s.entries.keys

def datasets (s : Store) : List Dataset := s.entries.map (·.2)

def rowCount (s : Store) : Nat := s.datasets.foldl (fun n d => n + d.rows.length) 0

/-- The store with a dataset under its id. -/
def placing (s : Store) (d : Dataset) : Store :=
  ⟨s.entries.place d.id d, Entries.place_ascending d.id d s.ascending⟩

/-- The store without what it has under a key. -/
def without (s : Store) (key : String) : Store := ⟨s.entries.remove key, Entries.remove_ascending key s.ascending⟩

def insert (s : Store) (d : Dataset) : Except Error Store :=
  if s.contains d.id then .error (.invalidDataset (.alreadyAdded d.id)) else .ok (s.placing d)

/-- The dataset under a key, and the others. -/
def remove (s : Store) (key : String) : Except Error (Dataset × Store) :=
  match s.get? key with
  | some d => .ok (d, s.without key)
  | none => .error (.notFound key)

end Store

end CampusQuery
