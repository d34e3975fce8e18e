import CampusQuery.Proofs.Entries
import CampusQuery.Tree.Basic

/-! What stands under a name in a clause of a query, and the query with something else there. -/

namespace CampusQuery.Tree

def part? (query : Tree) (clause name : String) : Option Tree := (query.get? clause).bind (·.get? name)

/-- A query without the clause stays as it is. -/
def withPart (query : Tree) (clause name : String) (t : Tree) : Tree :=
  match query with
  | .object root =>
    match root.lookup clause with
    | some (.object entries) =>
      .object (Entries.insert root clause (.object (Entries.insert entries name t)))
    | _ => .object root
  | other => other

variable {query t : Tree} {clause name : String}

theorem withPart_object {root entries : Entries Tree} (h : root.lookup clause = some (.object entries))
    (name : String) (t : Tree) :
    (object root).withPart clause name t =
      .object (Entries.insert root clause (.object (Entries.insert entries name t))) := by
  unfold withPart
  simp only [h]

theorem part?_eq_some_iff :
    query.part? clause name = some t ↔ ∃ root entries, query = .object root ∧
      root.lookup clause = some (.object entries) ∧ entries.lookup name = some t := by
  constructor
  · intro h
    obtain ⟨u, hu, ht⟩ := Option.bind_eq_some_iff.1 h
    obtain ⟨root, hroot, hclause⟩ := Option.bind_eq_some_iff.1 hu
    obtain ⟨entries, hentries, hname⟩ := Option.bind_eq_some_iff.1 ht
    cases query with
    | object root' =>
      cases u with
      | object entries' =>
        obtain rfl := Option.some.inj hroot
        obtain rfl := Option.some.inj hentries
        exact ⟨_, _, rfl, hclause, hname⟩
      | _ => cases hentries
    | _ => cases hroot
  · rintro ⟨root, entries, rfl, hclause, hname⟩
    show (root.lookup clause).bind (·.get? name) = some t
    rw [hclause]
    exact hname

theorem part?_withPart {u : Tree} (h : query.part? clause name = some u) (t : Tree) :
    (query.withPart clause name t).part? clause name = some t := by
  obtain ⟨root, entries, rfl, hclause, -⟩ := part?_eq_some_iff.1 h
  rw [withPart_object hclause]
  refine part?_eq_some_iff.2 ⟨_, Entries.insert entries name t, rfl, ?_, ?_⟩
  · rw [Entries.lookup_insert, if_pos rfl]
  · rw [Entries.lookup_insert, if_pos rfl]

theorem withPart_self (h : query.part? clause name = some t) : query.withPart clause name t = query := by
  obtain ⟨root, entries, rfl, hclause, hname⟩ := part?_eq_some_iff.1 h
  rw [withPart_object hclause, Entries.insert_self hname, Entries.insert_self hclause]

theorem withPart_withPart {u : Tree} (h : query.part? clause name = some u) (t v : Tree) :
    (query.withPart clause name t).withPart clause name v = query.withPart clause name v := by
  obtain ⟨root, entries, rfl, hclause, -⟩ := part?_eq_some_iff.1 h
  have hagain : (Entries.insert root clause (.object (Entries.insert entries name t))).lookup clause =
      some (.object (Entries.insert entries name t)) := by
    rw [Entries.lookup_insert, if_pos rfl]
  rw [withPart_object hclause, withPart_object hagain, withPart_object hclause, Entries.insert_insert,
    Entries.insert_insert]

/-- Queries that are the same with nothing but `t` in one place differ in that place only. -/
theorem eq_withPart_of_withPart_eq {other u v : Tree} (h : query.part? clause name = some u)
    (hother : other.part? clause name = some v)
    (heq : query.withPart clause name t = other.withPart clause name t) :
    other = query.withPart clause name v := by
  calc
    other = other.withPart clause name v := (withPart_self hother).symm
    _ = (other.withPart clause name t).withPart clause name v := (withPart_withPart hother t v).symm
    _ = (query.withPart clause name t).withPart clause name v := by rw [heq]
    _ = query.withPart clause name v := withPart_withPart h t v

end CampusQuery.Tree
