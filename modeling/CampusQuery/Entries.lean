/-! Lists of named values. Each operation keeps the names distinct and in the order in which they were
first put in. -/

namespace CampusQuery

abbrev Entries (α : Type) := List (String × α)

namespace Entries

variable {α : Type}

def keys (es : Entries α) : List String := es.map (·.1)

/-- A name that is there keeps its place and takes the new value. -/
def insert : Entries α → String → α → Entries α
  | [], key, value => [(key, value)]
  | (k, v) :: rest, key, value => if k = key then (k, value) :: rest else (k, v) :: insert rest key value

/-- A name that is there keeps its place and its value. -/
def push (es : Entries α) (key : String) (value : α) : Entries α :=
  if (es.lookup key).isSome then es else es ++ [(key, value)]

def remove (es : Entries α) (key : String) : Entries α := es.eraseP (·.1 == key)

/-- The value under a name, if there is one, and the entries without it. -/
def pop (es : Entries α) (key : String) : Option α × Entries α :=
  match es.findIdx? (·.1 == key) with
  | some i => (es[i]?.map (·.2), es.eraseIdx i)
  | none => (none, es)

/-- The pairs inserted one after another. -/
def ofList (pairs : List (String × α)) : Entries α :=
  pairs.foldl (fun es p => es.insert p.1 p.2) []

/-- The pairs pushed one after another. -/
def pushAll (pairs : List (String × α)) : Entries α :=
  pairs.foldl (fun es p => es.push p.1 p.2) []

theorem length_keys (es : Entries α) : es.keys.length = es.length := List.length_map _

theorem lookup_cons (k key : String) (value : α) (rest : List (String × α)) :
    List.lookup k ((key, value) :: rest) = if k = key then some value else rest.lookup k := by
  by_cases h : k = key
  · simp [h]
  · simp [List.lookup_cons, beq_false_of_ne h, h]

theorem isSome_lookup_iff (es : Entries α) (key : String) :
    (es.lookup key).isSome = true ↔ key ∈ es.keys := by
  induction es with
  | nil => simp [keys]
  | cons e rest ih =>
    obtain ⟨n, v⟩ := e
    by_cases h : key = n <;> simp_all [lookup_cons, keys]

theorem mem_keys_of_lookup {es : Entries α} {key : String} {value : α} (h : es.lookup key = some value) :
    key ∈ es.keys :=
  (isSome_lookup_iff es key).1 (by rw [h]; rfl)

theorem exists_lookup {es : Entries α} {key : String} (h : key ∈ es.keys) : ∃ value, es.lookup key = some value :=
  Option.isSome_iff_exists.1 ((isSome_lookup_iff es key).2 h)

theorem lookup_eq_none_iff {es : Entries α} {key : String} : es.lookup key = none ↔ key ∉ es.keys := by
  rw [← Option.not_isSome_iff_eq_none, isSome_lookup_iff]

theorem lookup_insert (es : Entries α) (key k : String) (value : α) :
    (es.insert key value).lookup k = if k = key then some value else es.lookup k := by
  induction es with
  | nil => rw [insert, lookup_cons]
  | cons e rest ih =>
    obtain ⟨n, v⟩ := e
    by_cases hn : n = key
    · subst hn; by_cases h : k = n <;> simp [insert, lookup_cons, h]
    · by_cases h : k = n
      · subst h; simp [insert, hn]
      · simp [insert, lookup_cons, hn, h, ih]

theorem keys_insert (es : Entries α) (key : String) (value : α) :
    (es.insert key value).keys = if key ∈ es.keys then es.keys else es.keys ++ [key] := by
  induction es with
  | nil => rfl
  | cons e rest ih =>
    obtain ⟨n, v⟩ := e
    by_cases hn : n = key
    · subst hn; simp [insert, keys]
    · have hn' : key ≠ n := fun h => hn h.symm
      simp only [keys] at ih
      by_cases hm : key ∈ rest.map (·.1) <;> simp_all [insert, keys]

theorem nodup_keys_insert {es : Entries α} (h : es.keys.Nodup) (key : String) (value : α) :
    (es.insert key value).keys.Nodup := by
  rw [keys_insert]
  split
  · exact h
  · next hk => exact List.nodup_append.2 ⟨h, by simp, by simp_all; grind⟩

theorem keys_push (es : Entries α) (key : String) (value : α) :
    (es.push key value).keys = if key ∈ es.keys then es.keys else es.keys ++ [key] := by
  unfold push
  by_cases h : key ∈ es.keys
  · simp [(isSome_lookup_iff es key).2 h, h]
  · rw [if_neg (fun hs => h ((isSome_lookup_iff es key).1 hs)), if_neg h]
    simp [keys]

theorem nodup_keys_push {es : Entries α} (h : es.keys.Nodup) (key : String) (value : α) :
    (es.push key value).keys.Nodup := by
  rw [keys_push]
  split
  · exact h
  · next hk => exact List.nodup_append.2 ⟨h, by simp, by simp_all; grind⟩

theorem keys_remove (es : Entries α) (key : String) : (es.remove key).keys = es.keys.erase key := by
  induction es with
  | nil => rfl
  | cons e rest ih =>
    by_cases h : e.1 = key <;> simp_all [remove, keys]

theorem nodup_keys_remove {es : Entries α} (h : es.keys.Nodup) (key : String) :
    (es.remove key).keys.Nodup := by
  rw [keys_remove]; exact h.erase key

theorem lookup_remove {es : Entries α} (h : es.keys.Nodup) (key k : String) :
    (es.remove key).lookup k = if k = key then none else es.lookup k := by
  by_cases hk : k = key
  · subst hk
    rw [if_pos rfl, lookup_eq_none_iff, keys_remove, h.mem_erase_iff]
    simp
  · rw [if_neg hk]
    clear h
    induction es with
    | nil => rfl
    | cons e rest ih =>
      obtain ⟨n, v⟩ := e
      by_cases hn : n = key
      · subst hn; simp [remove, lookup_cons, hk]
      · by_cases hkn : k = n <;> simp_all [remove, lookup_cons]

theorem pop_cons (n key : String) (v : α) (rest : Entries α) :
    pop ((n, v) :: rest) key =
      if n = key then (some v, rest) else ((rest.pop key).1, (n, v) :: (rest.pop key).2) := by
  unfold pop
  rw [List.findIdx?_cons]
  by_cases hn : n = key
  · simp [hn]
  · simp only [hn, beq_iff_eq, if_false]
    cases rest.findIdx? (·.1 == key) <;> rfl

theorem pop_eq (es : Entries α) (key : String) : es.pop key = (es.lookup key, es.remove key) := by
  induction es with
  | nil => rfl
  | cons e rest ih =>
    obtain ⟨n, v⟩ := e
    rw [pop_cons, lookup_cons, ih]
    by_cases hn : n = key
    · simp [remove, hn]
    · simp [remove, hn, Ne.symm hn]

theorem nodup_keys_ofList (pairs : List (String × α)) : (ofList pairs).keys.Nodup := by
  suffices ∀ es : Entries α, es.keys.Nodup →
      (pairs.foldl (fun es p => Entries.insert es p.1 p.2) es).keys.Nodup from this [] (by simp [keys])
  induction pairs with
  | nil => exact fun es h => h
  | cons p rest ih => exact fun es h => ih _ (nodup_keys_insert h _ _)

theorem nodup_keys_pushAll (pairs : List (String × α)) : (pushAll pairs).keys.Nodup := by
  suffices ∀ es : Entries α, es.keys.Nodup →
      (pairs.foldl (fun es p => Entries.push es p.1 p.2) es).keys.Nodup from this [] (by simp [keys])
  induction pairs with
  | nil => exact fun es h => h
  | cons p rest ih => exact fun es h => ih _ (nodup_keys_push h _ _)

end Entries

end CampusQuery
