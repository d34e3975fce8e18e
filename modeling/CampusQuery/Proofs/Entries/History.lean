import CampusQuery.Proofs.Entries

/-! What a history leaves under each name. Main statement: after any operations on the empty object, each name is there
once, with the value that it was last given and not relieved of, and the names stand in the order of the times at
which they were first put in since they were last taken out. -/

namespace CampusQuery.Entries

variable {α : Type}

/-- One use of an object that may change it. -/
inductive Op (α : Type) where
  | insert (key : String) (value : α)
  | remove (key : String)
  | collect (pairs : List (String × α))

def Op.apply (es : Entries α) : Op α → Entries α
  | insert key value => es.insert key value
  | remove key => (es.pop key).2
  | collect pairs => ofList pairs

/-- The values that an operation brings in. -/
def Op.values : Op α → List α
  | insert _ value => [value]
  | remove _ => []
  | collect pairs => pairs.map (·.2)

/-- The entries after operations on the empty object. -/
def after (ops : List (Op α)) : Entries α := ops.foldl Op.apply []

theorem Op.forall_mem_apply {P : α → Prop} {es : Entries α} (hes : ∀ e ∈ es, P e.2) {op : Op α}
    (h : ∀ value ∈ op.values, P value) : ∀ e ∈ op.apply es, P e.2 := by
  cases op with
  | insert key value => exact forall_mem_insert hes key (h value (List.mem_singleton_self value))
  | remove key =>
    rw [apply, pop_eq]
    exact fun e he => hes e (List.mem_of_mem_eraseP he)
  | collect pairs => exact forall_mem_ofList fun p hp => h p.2 (List.mem_map_of_mem hp)

theorem forall_mem_after {P : α → Prop} {ops : List (Op α)} (h : ∀ op ∈ ops, ∀ value ∈ op.values, P value) :
    ∀ e ∈ after ops, P e.2 := by
  suffices hfold : ∀ es : Entries α, (∀ e ∈ es, P e.2) → ∀ e ∈ ops.foldl Op.apply es, P e.2 from hfold [] nofun
  induction ops with
  | nil => exact fun es hes => hes
  | cons op rest ih =>
    obtain ⟨hop, hrest⟩ := List.forall_mem_cons.1 h
    exact fun es hes => ih hrest _ (Op.forall_mem_apply hes hop)

/-- What is done to one name, or to all. -/
inductive Edit (α : Type) where
  | put (key : String) (value : α)
  | drop (key : String)
  | dropAll

namespace Edit

def Puts (e : Edit α) (key : String) : Prop := ∃ value, e = put key value

def Drops (e : Edit α) (key : String) : Prop := e = drop key ∨ e = dropAll

def apply (es : Entries α) : Edit α → Entries α
  | put key value => es.insert key value
  | drop key => es.remove key
  | dropAll => []

theorem not_puts_of_drops {e : Edit α} {key : String} (h : e.Drops key) : ¬e.Puts key := by
  rintro ⟨value, rfl⟩
  rcases h with h | h <;> cases h

end Edit

/-- Who collects pairs takes everything out and puts one after another in. -/
def Op.edits : Op α → List (Edit α)
  | insert key value => [.put key value]
  | remove key => [.drop key]
  | collect pairs => .dropAll :: pairs.map fun p => .put p.1 p.2

def history (ops : List (Op α)) : List (Edit α) := ops.flatMap Op.edits

/-- The value is the one that was put in last, and the name has not been dropped since. -/
def LastPut (edits : List (Edit α)) (key : String) (value : α) : Prop :=
  ∃ earlier later, edits = earlier ++ .put key value :: later ∧ ∀ e ∈ later, ¬e.Puts key ∧ ¬e.Drops key

/-- Whenever the name was put in, it was dropped after that. -/
def Gone (edits : List (Edit α)) (key : String) : Prop :=
  ∀ earlier value later, edits = earlier ++ .put key value :: later → ∃ e ∈ later, e.Drops key

/-- At this time the name was put in, when it was gone, and it has not been dropped since. -/
def FirstPut (edits : List (Edit α)) (key : String) (time : ℕ) : Prop :=
  ∃ earlier value later, edits = earlier ++ .put key value :: later ∧ earlier.length = time ∧
    Gone earlier key ∧ ∀ e ∈ later, ¬e.Drops key

section Snoc

/-! What one more edit does to a history. -/

variable {edits : List (Edit α)} {e : Edit α} {key : String} {value : α} {time : ℕ}

theorem append_cons_of_concat {earlier later : List (Edit α)} {f : Edit α} (h : edits ++ [e] = earlier ++ f :: later) :
    (edits = earlier ∧ e = f) ∨ ∃ rest, later = rest ++ [e] ∧ edits = earlier ++ f :: rest := by
  rcases List.eq_nil_or_concat' later with rfl | ⟨rest, g, rfl⟩
  · obtain ⟨hearlier, hlast⟩ := List.append_inj' h rfl
    exact .inl ⟨hearlier, List.singleton_inj.1 hlast⟩
  · rw [← List.cons_append, ← List.append_assoc] at h
    obtain ⟨hedits, hlast⟩ := List.append_inj' h rfl
    exact .inr ⟨rest, by rw [hlast], hedits⟩

theorem lastPut_concat :
    LastPut (edits ++ [e]) key value ↔
      e = .put key value ∨ LastPut edits key value ∧ ¬e.Puts key ∧ ¬e.Drops key := by
  constructor
  · rintro ⟨earlier, later, heq, hlater⟩
    rcases append_cons_of_concat heq with ⟨-, rfl⟩ | ⟨rest, rfl, rfl⟩
    · exact .inl rfl
    · obtain ⟨hrest, he⟩ := List.forall_mem_append.1 hlater
      exact .inr ⟨⟨earlier, rest, rfl, hrest⟩, he e (List.mem_singleton_self e)⟩
  · rintro (rfl | ⟨⟨earlier, later, rfl, hlater⟩, he⟩)
    · exact ⟨edits, [], rfl, nofun⟩
    · refine ⟨earlier, later ++ [e], by simp, List.forall_mem_append.2 ⟨hlater, ?_⟩⟩
      exact List.forall_mem_singleton.2 he

theorem gone_concat : Gone (edits ++ [e]) key ↔ e.Drops key ∨ Gone edits key ∧ ¬e.Puts key := by
  constructor
  · intro h
    by_cases hdrops : e.Drops key
    · exact .inl hdrops
    · refine .inr ⟨fun earlier value later heq => ?_, ?_⟩
      · subst heq
        obtain ⟨f, hf, hfdrops⟩ := h earlier value (later ++ [e]) (by simp)
        rcases List.mem_append.1 hf with hf | hf
        · exact ⟨f, hf, hfdrops⟩
        · obtain rfl := List.mem_singleton.1 hf
          exact absurd hfdrops hdrops
      · rintro ⟨value, rfl⟩
        obtain ⟨f, hf, -⟩ := h edits value [] rfl
        cases hf
  · rintro h earlier value later heq
    rcases append_cons_of_concat heq with ⟨-, rfl⟩ | ⟨rest, rfl, hedits⟩
    · rcases h with h | ⟨-, h⟩
      · exact absurd ⟨value, rfl⟩ (Edit.not_puts_of_drops h)
      · exact absurd ⟨value, rfl⟩ h
    · rcases h with h | ⟨h, -⟩
      · exact ⟨e, by simp, h⟩
      · obtain ⟨f, hf, hfdrops⟩ := h earlier value rest hedits
        exact ⟨f, List.mem_append_left _ hf, hfdrops⟩

theorem firstPut_concat :
    FirstPut (edits ++ [e]) key time ↔
      FirstPut edits key time ∧ ¬e.Drops key ∨ e.Puts key ∧ Gone edits key ∧ time = edits.length := by
  constructor
  · rintro ⟨earlier, value, later, heq, htime, hgone, hlater⟩
    rcases append_cons_of_concat heq with ⟨rfl, rfl⟩ | ⟨rest, rfl, rfl⟩
    · exact .inr ⟨⟨value, rfl⟩, hgone, htime.symm⟩
    · obtain ⟨hrest, he⟩ := List.forall_mem_append.1 hlater
      exact .inl ⟨⟨earlier, value, rest, rfl, htime, hgone, hrest⟩, he e (List.mem_singleton_self e)⟩
  · rintro (⟨⟨earlier, value, later, rfl, htime, hgone, hlater⟩, he⟩ | ⟨⟨value, rfl⟩, hgone, rfl⟩)
    · refine ⟨earlier, value, later ++ [e], by simp, htime, hgone, List.forall_mem_append.2 ⟨hlater, ?_⟩⟩
      exact List.forall_mem_singleton.2 he
    · exact ⟨edits, value, [], rfl, rfl, hgone, nofun⟩

theorem FirstPut.lt_length (h : FirstPut edits key time) : time < edits.length := by
  obtain ⟨earlier, value, later, rfl, rfl, -, -⟩ := h
  simp

/-- A name is gone just if no value has been put in for it last. -/
theorem gone_iff : Gone edits key ↔ ∀ value, ¬LastPut edits key value := by
  induction edits using List.reverseRecOn with
  | nil =>
    refine iff_of_true (fun earlier value later heq => ?_) fun value ⟨earlier, later, heq, _⟩ => ?_
    · simp at heq
    · simp at heq
  | append_singleton edits e ih =>
    rw [gone_concat, ih]
    constructor
    · rintro h value hput
      rcases lastPut_concat.1 hput with rfl | ⟨hlast, hputs, hdrops⟩
      · rcases h with h | ⟨-, h⟩
        · exact Edit.not_puts_of_drops h ⟨value, rfl⟩
        · exact h ⟨value, rfl⟩
      · rcases h with h | ⟨h, -⟩
        · exact hdrops h
        · exact h value hlast
    · intro h
      by_cases hdrops : e.Drops key
      · exact .inl hdrops
      · have hputs : ¬e.Puts key := fun ⟨value, he⟩ => h value (lastPut_concat.2 (.inl he))
        exact .inr ⟨fun value hlast => h value (lastPut_concat.2 (.inr ⟨hlast, hputs, hdrops⟩)), hputs⟩

end Snoc

/-- The entries are what a history leaves. -/
structure Leaves (edits : List (Edit α)) (es : Entries α) : Prop where
  nodup : es.keys.Nodup
  lookup_iff : ∀ key value, es.lookup key = some value ↔ LastPut edits key value
  mem_iff : ∀ key, key ∈ es.keys ↔ ∃ time, FirstPut edits key time
  ascending : es.keys.Pairwise fun k l => ∀ i j, FirstPut edits k i → FirstPut edits l j → i < j

theorem Edit.lookup_apply {es : Entries α} (hnodup : es.keys.Nodup) (e : Edit α) (key : String) (value : α) :
    (e.apply es).lookup key = some value ↔
      e = .put key value ∨ es.lookup key = some value ∧ ¬e.Puts key ∧ ¬e.Drops key := by
  cases e with
  | put name other =>
    rw [apply, lookup_insert]
    by_cases hname : key = name
    · simp [Puts, Drops, hname]
    · simp [Puts, Drops, hname, Ne.symm hname]
  | drop name =>
    rw [apply, lookup_remove hnodup]
    by_cases hname : key = name
    · simp [Puts, Drops, hname]
    · simp [Puts, Drops, hname, Ne.symm hname]
  | dropAll => simp [apply, Drops]

theorem Edit.mem_keys_apply {es : Entries α} (hnodup : es.keys.Nodup) (e : Edit α) (key : String) :
    key ∈ (e.apply es).keys ↔ e.Puts key ∨ key ∈ es.keys ∧ ¬e.Drops key := by
  cases e with
  | put name other =>
    rw [apply, keys_insert]
    by_cases hname : name = key
    · subst hname
      split <;> simp_all [Puts]
    · split <;> simp [Puts, Drops, hname, Ne.symm hname]
  | drop name =>
    rw [apply, keys_remove, hnodup.mem_erase_iff]
    simp [Puts, Drops, eq_comm, and_comm]
  | dropAll => simp [apply, Puts, Drops, keys]

namespace Leaves

variable {edits : List (Edit α)} {es : Entries α} {key : String} {e : Edit α}

theorem nil : Leaves [] ([] : Entries α) where
  nodup := List.nodup_nil
  lookup_iff key value := by simp [LastPut]
  mem_iff key := by simp [FirstPut, keys]
  ascending := .nil

theorem gone_iff_not_mem (h : Leaves edits es) : Gone edits key ↔ key ∉ es.keys := by
  rw [gone_iff, ← lookup_eq_none_iff, Option.eq_none_iff_forall_ne_some]
  exact forall_congr' fun value => not_congr (h.lookup_iff key value).symm

/-- A name that is there keeps its time. -/
theorem firstPut_of_concat (h : Leaves edits es) (hkey : key ∈ es.keys) {time : ℕ}
    (htime : FirstPut (edits ++ [e]) key time) : FirstPut edits key time := by
  rcases firstPut_concat.1 htime with ⟨hbefore, -⟩ | ⟨-, hgone, -⟩
  · exact hbefore
  · exact absurd hkey (h.gone_iff_not_mem.1 hgone)

theorem keys_ascending (h : Leaves edits es) (e : Edit α) :
    es.keys.Pairwise fun k l => ∀ i j, FirstPut (edits ++ [e]) k i → FirstPut (edits ++ [e]) l j → i < j :=
  h.ascending.imp_of_mem fun hk hl hlt i j hi hj => hlt i j (h.firstPut_of_concat hk hi) (h.firstPut_of_concat hl hj)

theorem apply_ascending (h : Leaves edits es) (e : Edit α) :
    (e.apply es).keys.Pairwise fun k l =>
      ∀ i j, FirstPut (edits ++ [e]) k i → FirstPut (edits ++ [e]) l j → i < j := by
  have hbefore := h.keys_ascending e
  cases e with
  | put key value =>
    rw [Edit.apply, keys_insert]
    split
    · exact hbefore
    · next hkey =>
      -- a name that comes in anew stands last and has the latest time
      refine List.pairwise_append.2 ⟨hbefore, List.pairwise_singleton _ _, fun k hk l hl i j hi hj => ?_⟩
      obtain rfl := List.mem_singleton.1 hl
      have hlast : j = edits.length := by
        rcases firstPut_concat.1 hj with ⟨hj, -⟩ | ⟨-, -, hj⟩
        · exact absurd ((h.mem_iff _).2 ⟨j, hj⟩) hkey
        · exact hj
      rw [hlast]
      exact (h.firstPut_of_concat hk hi).lt_length
  | drop key =>
    rw [Edit.apply, keys_remove]
    exact hbefore.sublist List.erase_sublist
  | dropAll => exact .nil

theorem mem_keys_apply_iff (h : Leaves edits es) (e : Edit α) (key : String) :
    key ∈ (e.apply es).keys ↔ ∃ time, FirstPut (edits ++ [e]) key time := by
  rw [Edit.mem_keys_apply h.nodup]
  constructor
  · rintro (hputs | ⟨hkey, hdrops⟩)
    · by_cases hkey : key ∈ es.keys
      · obtain ⟨time, htime⟩ := (h.mem_iff key).1 hkey
        exact ⟨time, firstPut_concat.2 (.inl ⟨htime, fun hdrops => Edit.not_puts_of_drops hdrops hputs⟩)⟩
      · exact ⟨_, firstPut_concat.2 (.inr ⟨hputs, h.gone_iff_not_mem.2 hkey, rfl⟩)⟩
    · obtain ⟨time, htime⟩ := (h.mem_iff key).1 hkey
      exact ⟨time, firstPut_concat.2 (.inl ⟨htime, hdrops⟩)⟩
  · rintro ⟨time, htime⟩
    rcases firstPut_concat.1 htime with ⟨hbefore, hdrops⟩ | ⟨hputs, -, -⟩
    · exact .inr ⟨(h.mem_iff key).2 ⟨time, hbefore⟩, hdrops⟩
    · exact .inl hputs

theorem apply (h : Leaves edits es) (e : Edit α) : Leaves (edits ++ [e]) (e.apply es) where
  nodup := by
    cases e with
    | put key value => exact nodup_keys_insert h.nodup key value
    | drop key => exact nodup_keys_remove h.nodup key
    | dropAll => exact List.nodup_nil
  lookup_iff key value := by rw [Edit.lookup_apply h.nodup, h.lookup_iff, lastPut_concat]
  mem_iff := h.mem_keys_apply_iff e
  ascending := h.apply_ascending e

theorem foldl (edits : List (Edit α)) : Leaves edits (edits.foldl Edit.apply []) := by
  induction edits using List.reverseRecOn with
  | nil => exact nil
  | append_singleton edits e ih =>
    rw [List.foldl_append]
    exact ih.apply e

end Leaves

theorem foldl_edits (es : Entries α) (op : Op α) : op.edits.foldl Edit.apply es = op.apply es := by
  cases op with
  | insert key value => rfl
  | remove key =>
    rw [Op.apply, pop_eq]
    rfl
  | collect pairs =>
    rw [Op.edits, List.foldl_cons, List.foldl_map]
    rfl

/-- Operations come to the edits that they consist of. -/
theorem after_eq_foldl (ops : List (Op α)) : after ops = (history ops).foldl Edit.apply [] := by
  unfold after history
  rw [List.foldl_flatMap]
  simp only [foldl_edits]

theorem remove_eq_filter {es : Entries α} (h : es.keys.Nodup) (key : String) :
    es.remove key = es.filter (·.1 != key) := by
  induction es with
  | nil => rfl
  | cons e rest ih =>
    obtain ⟨hfirst, hrest⟩ := List.nodup_cons.1 h
    by_cases hname : e.1 = key
    · subst hname
      have hothers : ∀ f ∈ rest, (f.1 != e.1) = true := fun f hf =>
        bne_iff_ne.2 fun hkey => hfirst (List.mem_map.2 ⟨f, hf, hkey⟩)
      rw [remove, List.eraseP_cons_of_pos (by simp), List.filter_cons_of_neg (by simp), List.filter_eq_self.2 hothers]
    · rw [List.filter_cons_of_pos (by simpa using hname), ← ih hrest]
      exact List.eraseP_cons_of_neg (by simpa using hname)

theorem leaves_after (ops : List (Op α)) : Leaves (history ops) (after ops) :=
  after_eq_foldl ops ▸ Leaves.foldl (history ops)

/-- Removing gives the value that is there, and leaves the other entries in their order. -/
theorem history_leaves_after (ops : List (Op α)) :
    Leaves (history ops) (after ops) ∧
      ∀ key, (after ops).pop key = ((after ops).lookup key, (after ops).filter (·.1 != key)) := by
  refine ⟨leaves_after ops, fun key => ?_⟩
  rw [pop_eq, remove_eq_filter (leaves_after ops).nodup]

example : after [.insert "b" 1, .insert "a" 2, .remove "b", .insert "b" 3, .insert "a" 4] = [("a", 4), ("b", 3)] := by
  decide

end CampusQuery.Entries
