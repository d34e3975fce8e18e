import CampusQuery.Entries
import Mathlib.Tactic

/-! Entries with distinct names: what stands in the list is what is found under its name. -/

namespace CampusQuery.Entries

variable {α β : Type}

theorem mem_of_lookup {es : Entries α} {key : String} {value : α} (h : es.lookup key = some value) :
    (key, value) ∈ es := by
  induction es with
  | nil => simp at h
  | cons e rest ih =>
    obtain ⟨n, v⟩ := e
    rw [lookup_cons] at h
    split at h
    · next hk => rw [hk, ← Option.some.inj h]; exact List.mem_cons_self ..
    · exact List.mem_cons_of_mem _ (ih h)

theorem lookup_of_mem {es : Entries α} (hnodup : es.keys.Nodup) {key : String} {value : α}
    (h : (key, value) ∈ es) : es.lookup key = some value := by
  induction es with
  | nil => cases h
  | cons e rest ih =>
    obtain ⟨n, v⟩ := e
    obtain ⟨hfirst, hrest⟩ := List.nodup_cons.1 hnodup
    rw [lookup_cons]
    rcases List.mem_cons.1 h with heq | hmem
    · obtain ⟨rfl, rfl⟩ := Prod.mk.inj heq
      exact if_pos rfl
    · have hne : key ≠ n := by
        intro hkey
        subst hkey
        exact hfirst (List.mem_map_of_mem (f := (·.1)) hmem)
      rw [if_neg hne]
      exact ih hrest hmem

theorem lookup_map (f : α → β) (es : Entries α) (key : String) :
    (es.map fun e => (e.1, f e.2)).lookup key = (es.lookup key).map f := by
  induction es with
  | nil => rfl
  | cons e rest ih =>
    obtain ⟨n, v⟩ := e
    rw [List.map_cons, lookup_cons, lookup_cons, ih]
    split <;> rfl

theorem map_insert (f : α → β) (es : Entries α) (key : String) (value : α) :
    ((es.insert key value).map fun e => (e.1, f e.2)) =
      Entries.insert (es.map fun e => (e.1, f e.2)) key (f value) := by
  induction es with
  | nil => rfl
  | cons e rest ih =>
    by_cases hname : e.1 = key
    · simp [insert, hname]
    · simp [insert, hname, ih]

theorem insert_insert (es : Entries α) (key : String) (value other : α) :
    (es.insert key value).insert key other = es.insert key other := by
  induction es with
  | nil => simp [insert]
  | cons e rest ih =>
    by_cases hname : e.1 = key
    · simp [insert, hname]
    · simp [insert, hname, ih]

theorem insert_self {es : Entries α} {key : String} {value : α} (h : es.lookup key = some value) :
    es.insert key value = es := by
  induction es with
  | nil => cases h
  | cons e rest ih =>
    obtain ⟨n, v⟩ := e
    rw [lookup_cons] at h
    by_cases hname : n = key
    · rw [if_pos hname.symm] at h
      rw [insert, if_pos hname, Option.some.inj h]
    · rw [if_neg (Ne.symm hname)] at h
      rw [insert, if_neg hname, ih h]

/-- What names are picked by does not see the value under a name that is not picked. -/
theorem filter_insert_of_not {p : String → Bool} {key : String} (hp : p key = false) {es : Entries α}
    (h : key ∈ es.keys) (value : α) :
    (es.insert key value).filter (fun e => p e.1) = es.filter (fun e => p e.1) := by
  induction es with
  | nil => cases h
  | cons e rest ih =>
    obtain ⟨n, v⟩ := e
    by_cases hname : n = key
    · subst hname
      simp [insert, hp]
    · have hrest : key ∈ keys rest := (List.mem_cons.1 h).resolve_left (Ne.symm hname)
      rw [insert, if_neg hname, List.filter_cons, List.filter_cons, ih hrest]

theorem insert_of_not_mem {es : Entries α} {key : String} (h : key ∉ es.keys) (value : α) :
    es.insert key value = es ++ [(key, value)] := by
  induction es with
  | nil => rfl
  | cons e rest ih =>
    obtain ⟨hne, hrest⟩ := not_or.1 (mt List.mem_cons.2 h)
    rw [insert, if_neg (Ne.symm hne), ih hrest, List.cons_append]

theorem ofList_of_nodup {pairs : List (String × α)} (h : (keys pairs).Nodup) : ofList pairs = pairs := by
  suffices hfold : ∀ es : Entries α, (keys (es ++ pairs)).Nodup →
      pairs.foldl (fun es p => Entries.insert es p.1 p.2) es = es ++ pairs from hfold [] h
  clear h
  induction pairs with
  | nil => exact fun es _ => (List.append_nil es).symm
  | cons p rest ih =>
    intro es hes
    have hsplit : es ++ p :: rest = (es ++ [p]) ++ rest := by simp
    have hp : p.1 ∉ es.keys := by
      unfold keys at hes
      rw [List.map_append, List.map_cons] at hes
      intro hmem
      exact List.disjoint_of_nodup_append hes hmem (List.mem_cons_self ..)
    rw [List.foldl_cons, insert_of_not_mem hp, ih _ (hsplit ▸ hes), ← hsplit]

theorem push_cons_of_eq {es : Entries α} {key : String} (value other : α) :
    push ((key, value) :: es) key other = (key, value) :: es := by
  unfold push
  simp

theorem push_cons_of_ne {es : Entries α} {key name : String} (hne : name ≠ key) (value other : α) :
    push ((key, value) :: es) name other = (key, value) :: es.push name other := by
  unfold push
  rw [lookup_cons, if_neg hne]
  split
  · rfl
  · rfl

/-- The pairs under a name that comes first have no part in what follows it. -/
theorem pushAll_cons (key : String) (value : α) (pairs : List (String × α)) :
    pushAll ((key, value) :: pairs) = (key, value) :: pushAll (pairs.filter (·.1 != key)) := by
  suffices hfold : ∀ es : Entries α, pairs.foldl (fun es p => push es p.1 p.2) ((key, value) :: es) =
      (key, value) :: (pairs.filter (·.1 != key)).foldl (fun es p => push es p.1 p.2) es from hfold []
  induction pairs with
  | nil => exact fun es => rfl
  | cons p rest ih =>
    intro es
    obtain ⟨name, other⟩ := p
    rw [List.foldl_cons]
    by_cases hname : name = key
    · subst hname
      rw [push_cons_of_eq, ih, List.filter_cons_of_neg (by simp)]
    · rw [push_cons_of_ne hname, ih, List.filter_cons_of_pos (by simpa using hname), List.foldl_cons]

theorem filter_filterMap_ne (value? : String → Option α) (name : String) (names : List String) :
    (names.filterMap fun name => (value? name).map (name, ·)).filter (·.1 != name) =
      (names.filter fun other => !other == name).filterMap fun name => (value? name).map (name, ·) := by
  induction names with
  | nil => rfl
  | cons other rest ih =>
    by_cases hother : other = name <;> cases hvalue : value? other <;>
      simp_all

/-- Pushing what there is under a list of names comes to keeping the first of each. -/
theorem pushAll_filterMap (value? : String → Option α) (names : List String) :
    pushAll (names.filterMap fun name => (value? name).map (name, ·)) =
      names.eraseDups.filterMap fun name => (value? name).map (name, ·) := by
  induction hn : names.length using Nat.strong_induction_on generalizing names with
  | _ n ih =>
    cases names with
    | nil => rfl
    | cons name rest =>
      have hlt : (rest.filter fun other => !other == name).length < n := by
        rw [← hn]
        exact Nat.lt_succ_of_le (List.length_filter_le ..)
      have hrest := ih _ hlt _ rfl
      rw [List.eraseDups_cons]
      cases hvalue : value? name with
      | none =>
        have habsent : ∀ p ∈ rest.filterMap fun name => (value? name).map (name, ·),
            (p.1 != name) = true := by
          intro p hp
          obtain ⟨other, -, hother⟩ := List.mem_filterMap.1 hp
          obtain ⟨v, hv, rfl⟩ := Option.map_eq_some_iff.1 hother
          rw [bne_iff_ne]
          rintro rfl
          simp [hvalue] at hv
        rw [List.filterMap_cons_none (by simp [hvalue]), List.filterMap_cons_none (by simp [hvalue]), ← hrest,
          ← filter_filterMap_ne, List.filter_eq_self.2 habsent]
      | some value =>
        rw [List.filterMap_cons_some (b := (name, value)) (by simp [hvalue]),
          List.filterMap_cons_some (b := (name, value)) (by simp [hvalue]), pushAll_cons, ← hrest,
          filter_filterMap_ne]

theorem lookup_filter_ne (es : Entries α) (key name : String) :
    (es.filter (·.1 != key)).lookup name = if name = key then none else es.lookup name := by
  induction es with
  | nil => simp
  | cons e rest ih =>
    obtain ⟨n, v⟩ := e
    by_cases hn : n = key
    · rw [List.filter_cons_of_neg (by simp [hn]), ih, lookup_cons]
      by_cases hname : name = key
      · rw [if_pos hname, if_pos hname]
      · rw [if_neg hname, if_neg hname, if_neg (hn ▸ hname)]
    · rw [List.filter_cons_of_pos (by simpa using hn), lookup_cons, ih, lookup_cons]
      by_cases hname : name = n
      · rw [if_pos hname, if_pos hname, if_neg (hname ▸ hn)]
      · rw [if_neg hname, if_neg hname]

theorem mem_insert {es : Entries α} {key : String} {value : α} {e : String × α}
    (h : e ∈ es.insert key value) : e = (key, value) ∨ e ∈ es := by
  induction es with
  | nil => exact .inl (List.mem_singleton.1 h)
  | cons f rest ih =>
    obtain ⟨n, v⟩ := f
    unfold insert at h
    split at h
    · next hn => exact (List.mem_cons.1 h).imp (hn ▸ ·) (List.mem_cons_of_mem _)
    · rcases List.mem_cons.1 h with rfl | h
      · exact .inr (List.mem_cons_self ..)
      · exact (ih h).imp_right (List.mem_cons_of_mem _)

section Values

/-! What holds of all values that are put in holds of all that are there. -/

variable {P : α → Prop}

theorem forall_mem_insert {es : Entries α} (hes : ∀ e ∈ es, P e.2) (key : String) {value : α} (h : P value) :
    ∀ e ∈ es.insert key value, P e.2 := by
  intro e he
  rcases mem_insert he with rfl | he
  · exact h
  · exact hes e he

theorem forall_mem_ofList {pairs : List (String × α)} (h : ∀ p ∈ pairs, P p.2) : ∀ e ∈ ofList pairs, P e.2 := by
  suffices hfold : ∀ es : Entries α, (∀ e ∈ es, P e.2) →
      ∀ e ∈ pairs.foldl (fun es p => Entries.insert es p.1 p.2) es, P e.2 from hfold [] nofun
  induction pairs with
  | nil => exact fun es hes => hes
  | cons p rest ih =>
    obtain ⟨hp, hrest⟩ := List.forall_mem_cons.1 h
    exact fun es hes => ih hrest _ (forall_mem_insert hes p.1 hp)

end Values

theorem key_mem_of_mem_insert {es : Entries α} {key : String} {value : α} (hkey : key ∈ es.keys)
    {e : String × α} (he : e ∈ es.insert key value) : e.1 ∈ es.keys := by
  have hmem : e.1 ∈ (es.insert key value).keys := List.mem_map_of_mem he
  rwa [keys_insert, if_pos hkey] at hmem

end CampusQuery.Entries
