import CampusQuery.Proofs.Entries
import CampusQuery.Store
import Mathlib.Tactic
import Mathlib.Data.String.Basic

/-! What placing and removing do to a store. -/

namespace CampusQuery

namespace Entries

theorem lookup_place (es : Entries Dataset) (key k : String) (d : Dataset) :
    (es.place key d).lookup k = if k = key then some d else es.lookup k := by
  induction es with
  | nil => exact lookup_cons ..
  | cons e rest ih =>
    obtain ⟨n, e⟩ := e
    unfold place
    split
    · next hlt =>
      rw [lookup_cons, lookup_cons, ih]
      by_cases hk : k = key
      · subst hk
        rw [if_pos rfl, if_pos rfl, if_neg (ne_of_gt hlt)]
      · rw [if_neg hk, if_neg hk]
    · split
      · next heq =>
        rw [lookup_cons, lookup_cons, heq]
        by_cases hk : k = key
        · rw [if_pos hk, if_pos hk]
        · rw [if_neg hk, if_neg hk, if_neg hk]
      · rw [lookup_cons]

/-- Placing under a new key is undone by removing the key. -/
theorem remove_place {key : String} (d : Dataset) {es : Entries Dataset} (h : es.lookup key = none) :
    (es.place key d).remove key = es := by
  induction es with
  | nil => simp [place, remove]
  | cons e rest ih =>
    obtain ⟨k, e⟩ := e
    have hne : key ≠ k := by
      intro hk
      simp [hk] at h
    rw [lookup_cons, if_neg hne] at h
    unfold place
    split_ifs with hlt heq
    · unfold remove at ih ⊢
      rw [List.eraseP_cons_of_neg (by simpa using Ne.symm hne), ih h]
    · exact absurd heq.symm hne
    · exact List.eraseP_cons_of_pos (by simp)

end Entries

namespace Store

theorem nodup_keys (s : Store) : s.entries.keys.Nodup := s.ascending.imp fun hlt => hlt.ne

theorem get?_placing (s : Store) (d : Dataset) (key : String) :
    (s.placing d).get? key = if key = d.id then some d else s.get? key :=
  Entries.lookup_place s.entries d.id key d

theorem get?_without (s : Store) (key other : String) :
    (s.without key).get? other = if other = key then none else s.get? other :=
  Entries.lookup_remove s.nodup_keys key other

theorem without_placing {s : Store} {d : Dataset} (h : s.get? d.id = none) : (s.placing d).without d.id = s :=
  Store.ext (Entries.remove_place d h)

end Store

end CampusQuery
