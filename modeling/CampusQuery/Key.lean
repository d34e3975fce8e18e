import CampusQuery.Error

/-! The two sorts of names in a query: qualified keys, a dataset id and a field with an underscore in
between, and apply names, which have none. -/

namespace CampusQuery

/-- The parts of a qualified key. -/
def splitChars? (cs : List Char) : Option (List Char × List Char) :=
  let id := cs.takeWhile (· != '_')
  match cs.dropWhile (· != '_') with
  | _ :: field => if id ≠ [] ∧ '_' ∉ field then some (id, field) else none
  | [] => none

theorem span_append_underscore {id : List Char} (h : '_' ∉ id) (field : List Char) :
    (id ++ '_' :: field).takeWhile (· != '_') = id ∧
      (id ++ '_' :: field).dropWhile (· != '_') = '_' :: field := by
  induction id with
  | nil => simp
  | cons c cs ih =>
    have hc : c ≠ '_' := fun hc => h (by simp [hc])
    simpa [hc] using ih fun hm => h (List.mem_cons_of_mem c hm)

/-- A key has one way of being read. -/
theorem splitChars?_eq_some_iff {cs id field : List Char} :
    splitChars? cs = some (id, field) ↔
      cs = id ++ '_' :: field ∧ id ≠ [] ∧ '_' ∉ id ∧ '_' ∉ field := by
  constructor
  · intro h
    have hcs : cs.takeWhile (· != '_') ++ cs.dropWhile (· != '_') = cs := List.takeWhile_append_dropWhile
    have hid : '_' ∉ cs.takeWhile (· != '_') := fun hm => by
      simpa using List.all_eq_true.1 (List.all_takeWhile (p := (· != '_')) (l := cs)) _ hm
    simp only [splitChars?] at h
    split at h
    · next c rest hd =>
      have hc : c = '_' := by
        have := List.head?_dropWhile_not (· != '_') cs
        rw [hd] at this
        simpa using this
      subst hc
      split at h
      · next hf =>
        simp only [Option.some.injEq, Prod.mk.injEq] at h
        obtain ⟨rfl, rfl⟩ := h
        exact ⟨by rw [← hd, hcs], hf.1, hid, hf.2⟩
      · simp at h
    · simp at h
  · rintro ⟨rfl, hne, hid, hfield⟩
    have hs := span_append_underscore hid field
    simp only [splitChars?, hs.1, hs.2]
    simp [hne, hfield]

def splitKey (key : String) : Except Fault (String × String) :=
  match splitChars? key.toList with
  | some (id, field) => .ok (String.ofList id, String.ofList field)
  | none => .error (.invalidKey key)

def isApplyName (name : String) : Bool := name.toList ≠ [] && '_' ∉ name.toList

end CampusQuery
